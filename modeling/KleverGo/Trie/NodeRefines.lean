import KleverGo.Trie.Node

/-!
# Trie nodes stand for Patricia trees

A node in memory stands for a tree (`Represents`): a loaded child stands for a subtree, and in the
place of a child that is not loaded there is the Merkle hash of a subtree that the database holds
(`Stored`).  A cached hash is the Merkle hash of the tree, and a node that is not dirty is stored.

* `tryGet_refines` — reading returns the value of the map;
* `insert_refines`, `delete_refines` — the node after a change stands for the changed tree.

No operation fails on a canonical tree that is kept apart from the key.
-/

namespace KleverGo.Trie

open Node Function List

open KleverGo.Patricia (prefixLen)

/-- A value that can be in a trie: updating a key to an empty value deletes it. -/
abbrev Value := { value : Bytes // value ≠ [] }

/-- What a trie is in the abstract. -/
abbrev PTree := Patricia.Tree 17 Value

section Merkle

variable (hasher : Hasher Digit)

/-- The hash of a tree; a missing subtree has the empty one. -/
def merkle : PTree → Bytes
  | .nil => []
  | .leaf key value => hasher.compute (.leaf key value.1)
  | .extension key child => hasher.compute (.extension key (merkle child))
  | .branch children => hasher.compute (.branch fun i => merkle (children i))

theorem merkle_eq_nil {t : PTree} : merkle hasher t = [] ↔ t = .nil := by
  cases t <;> simp [merkle, hasher.compute_ne_nil]

theorem merkle_injective : Injective (merkle hasher) := by
  intro t u h
  induction t generalizing u with
  | nil => exact ((merkle_eq_nil hasher).1 h.symm).symm
  | leaf key value =>
    cases u with
    | nil => exact (merkle_eq_nil hasher).1 h
    | leaf key' value' =>
      have hcontent := hasher.injective h
      simp only [Collapsed.leaf.injEq] at hcontent
      rw [hcontent.1, Subtype.ext hcontent.2]
    | extension | branch => cases hasher.injective h
  | extension key child ih =>
    cases u with
    | nil => exact (merkle_eq_nil hasher).1 h
    | extension key' child' =>
      have hcontent := hasher.injective h
      simp only [Collapsed.extension.injEq] at hcontent
      rw [hcontent.1, ih hcontent.2]
    | leaf | branch => cases hasher.injective h
  | branch children ih =>
    cases u with
    | nil => exact (merkle_eq_nil hasher).1 h
    | branch children' =>
      have hcontent := hasher.injective h
      simp only [Collapsed.branch.injEq] at hcontent
      congr 1
      funext i
      exact ih i (congrFun hcontent i)
    | leaf | extension => cases hasher.injective h

/-- The tree is in the database, node by node. -/
def Stored (db : Database) : PTree → Prop
  | .nil => True
  | .leaf key value => db.lookup (merkle hasher (.leaf key value)) = some (.leaf key value.1)
  | .extension key child =>
    db.lookup (merkle hasher (.extension key child)) = some (.extension key (merkle hasher child)) ∧
      Stored db child
  | .branch children =>
    db.lookup (merkle hasher (.branch children)) = some (.branch fun i => merkle hasher (children i)) ∧
      ∀ i, Stored db (children i)

end Merkle

section Represents

variable (hasher : Hasher Digit) (db : Database)

/-- What the hash and the dirty flag of a node say: a cached hash is that of the tree and is in step
with the hashes of the children, and a node that is not dirty is stored. -/
structure Marks (hash : Option Bytes) (dirty : Bool) (inStep : Prop) (t : PTree) : Prop where
  cached : ∀ h, hash = some h → h = merkle hasher t ∧ inStep
  clean : dirty = false → hash.isSome = true ∧ Stored hasher db t

/-- The node stands for the tree. -/
def Represents : Node → PTree → Prop
  | .nil, t => t = .nil
  | .leaf key value hash dirty, t =>
    ∃ v : Value, v.1 = value ∧ t = .leaf key v ∧ Marks hasher db hash dirty True t
  | .extension key enc child hash dirty, t =>
    ∃ c, t = .extension key c ∧
      ((child = .nil → enc = merkle hasher c ∧ Stored hasher db c) ∧
        (child ≠ .nil → Represents child c)) ∧
      Marks hasher db hash dirty (enc = merkle hasher c) t
  | .branch enc children hash dirty, t =>
    ∃ ts, t = .branch ts ∧
      (∀ i, (children i = .nil → enc i = merkle hasher (ts i) ∧ Stored hasher db (ts i)) ∧
        (children i ≠ .nil → Represents (children i) (ts i))) ∧
      Marks hasher db hash dirty (∀ i, enc i = merkle hasher (ts i)) t

/-- The place of a child: a loaded node, or the hash of a stored tree. -/
def Slot (enc : Bytes) (child : Node) (c : PTree) : Prop :=
  (child = .nil → enc = merkle hasher c ∧ Stored hasher db c) ∧
    (child ≠ .nil → Represents hasher db child c)

end Represents

variable {hasher : Hasher Digit} {db : Database}

variable {ts : Digit → PTree}

theorem Canonical.exists_child (h : (Patricia.Tree.branch ts).Canonical) : ∃ i, ts i ≠ .nil := by
  obtain ⟨⟨a, -, -, ha, -⟩, -⟩ := h
  exact ⟨a, ha⟩

variable {key : List Digit} {enc : Bytes} {child : Node} {hash : Option Bytes} {dirty : Bool}
  {c : PTree}

theorem represents_extension :
    Represents hasher db (.extension key enc child hash dirty) (.extension key c) ↔
      Slot hasher db enc child c ∧
        Marks hasher db hash dirty (enc = merkle hasher c) (.extension key c) := by
  constructor
  · rintro ⟨c', heq, hslot, hmarks⟩
    cases heq
    exact ⟨hslot, hmarks⟩
  · rintro ⟨hslot, hmarks⟩
    exact ⟨c, rfl, hslot, hmarks⟩

variable {children : Digit → Node}

theorem represents_branch {enc : Digit → Bytes} :
    Represents hasher db (.branch enc children hash dirty) (.branch ts) ↔
      (∀ i, Slot hasher db (enc i) (children i) (ts i)) ∧
        Marks hasher db hash dirty (∀ i, enc i = merkle hasher (ts i)) (.branch ts) := by
  constructor
  · rintro ⟨ts', heq, hslot, hmarks⟩
    cases heq
    exact ⟨hslot, hmarks⟩
  · rintro ⟨hslot, hmarks⟩
    exact ⟨ts, rfl, hslot, hmarks⟩

/-- A node that has just been changed claims nothing about its hash or the database. -/
theorem Marks.fresh (inStep : Prop) (t : PTree) : Marks hasher db none true inStep t :=
  ⟨fun _ h => (by cases h), fun h => (by cases h)⟩

variable {n : Node} {t : PTree}

theorem Represents.eq_nil_iff (h : Represents hasher db n t) : n = .nil ↔ t = .nil := by
  cases n with
  | nil => simpa [Represents] using h
  | leaf => obtain ⟨v, -, rfl, -⟩ := h; simp
  | extension => obtain ⟨c, rfl, -⟩ := h; simp
  | branch => obtain ⟨ts, rfl, -⟩ := h; simp

theorem Represents.ne_nil (h : Represents hasher db n t) (ht : t ≠ .nil) : n ≠ .nil :=
  fun hn => ht (h.eq_nil_iff.1 hn)

theorem Represents.tree_ne_nil (h : Represents hasher db n t) (hn : n ≠ .nil) : t ≠ .nil :=
  fun ht => hn (h.eq_nil_iff.2 ht)

@[simp] theorem Node.isNil_iff : n.isNil = true ↔ n = .nil := by
  cases n <;> simp [isNil]

theorem Slot.of_represents (h : Represents hasher db child c) (hne : child ≠ .nil) :
    Slot hasher db enc child c :=
  ⟨fun heq => absurd heq hne, fun _ => h⟩

theorem Slot.of_stored (h : Stored hasher db c) : Slot hasher db (merkle hasher c) .nil c :=
  ⟨fun _ => ⟨rfl, h⟩, fun hn => absurd rfl hn⟩

theorem Slot.nil : Slot hasher db [] .nil .nil := .of_stored (c := .nil) trivial

theorem Slot.isEmpty_iff (h : Slot hasher db enc child c) :
    (child.isNil && decide (enc = [])) = true ↔ c = .nil := by
  by_cases hchild : child = .nil
  · rw [(h.1 hchild).1]
    simp [hchild, merkle_eq_nil]
  · have hc := (h.2 hchild).eq_nil_iff
    simp [hchild, ← hc]

theorem childPositions_eq {enc : Digit → Bytes}
    (h : ∀ i, Slot hasher db (enc i) (children i) (ts i)) :
    childPositions enc children = Patricia.Tree.positions ts := by
  unfold childPositions Patricia.Tree.positions
  congr 1
  funext i
  rw [Bool.eq_iff_iff, Bool.not_eq_true', Bool.not_eq_true', Bool.eq_false_iff, Bool.eq_false_iff,
    ne_eq, (h i).isEmpty_iff, ne_eq, Patricia.Tree.isNil_iff]

theorem Represents.isEmptyOrNil (h : Represents hasher db n t) (ht : t.Canonical) (hne : t ≠ .nil) :
    n.isEmptyOrNil = .ok () := by
  cases n with
  | nil => exact absurd h hne
  | leaf key value hash dirty =>
    obtain ⟨v, rfl, -, -⟩ := h
    simp [isEmptyOrNil, v.2]
  | extension key enc child hash dirty =>
    obtain ⟨c, rfl, -⟩ := id h
    have hc := Patricia.Tree.ne_nil_of_isBranch ht.2.1
    have hempty := mt (represents_extension.1 h).1.isEmpty_iff.1 hc
    simpa [isEmptyOrNil] using hempty
  | branch enc children hash dirty =>
    obtain ⟨ts, rfl, hslots, -⟩ := h
    obtain ⟨⟨a, -, -, ha, -⟩, -⟩ := ht
    have hpos : a ∈ childPositions enc children := by
      rw [childPositions_eq hslots]
      exact Patricia.Tree.mem_positions.2 ha
    have hnonempty : childPositions enc children ≠ [] := by
      intro heq
      simp [heq] at hpos
    simp [isEmptyOrNil, hnonempty]

/-! ## Loading children -/

variable {α : Type}

@[simp] theorem except_ok_bind {β : Type} (a : α) (f : α → Except NodeError β) :
    (Except.ok a >>= f) = f a := rfl

@[simp] theorem except_pure (a : α) : (pure a : Except NodeError α) = .ok a := rfl

theorem Stored.load (h : Stored hasher db t) (hne : t ≠ .nil) :
    ∃ n, getNodeFromDBAndDecode db (merkle hasher t) = .ok n ∧
      Represents hasher db (n.setGivenHash (merkle hasher t)) t := by
  have hmarks : ∀ inStep : Prop, inStep →
      Marks hasher db (some (merkle hasher t)) false inStep t := by
    intro inStep hstep
    exact ⟨fun x hx => ⟨(Option.some.inj hx).symm, hstep⟩, fun _ => ⟨rfl, h⟩⟩
  cases t with
  | nil => exact absurd rfl hne
  | leaf key value =>
    refine ⟨.leaf key value.1 none false, ?_, value, rfl, rfl, hmarks _ trivial⟩
    rw [getNodeFromDBAndDecode, (show _ = _ from h)]
    rfl
  | extension key child =>
    refine ⟨.extension key (merkle hasher child) .nil none false, ?_, ?_⟩
    · rw [getNodeFromDBAndDecode, h.1]
      rfl
    · exact represents_extension.2 ⟨.of_stored h.2, hmarks _ rfl⟩
  | branch children =>
    refine ⟨.branch (fun i => merkle hasher (children i)) (fun _ => .nil) none false, ?_, ?_⟩
    · rw [getNodeFromDBAndDecode, h.1]
      rfl
    · exact represents_branch.2 ⟨fun i => .of_stored (h.2 i), hmarks _ fun _ => rfl⟩

/-- What `resolveIfCollapsed` does to a place: the child is loaded unless there is none. -/
theorem Slot.resolve (h : Slot hasher db enc child c) :
    (((child.isNil && decide (enc ≠ [])) = true ∧ ∃ n,
        getNodeFromDBAndDecode db enc = .ok n ∧ Represents hasher db (n.setGivenHash enc) c) ∨
      (child.isNil && decide (enc ≠ [])) = false ∧ Represents hasher db child c) := by
  by_cases hchild : child = .nil
  · obtain ⟨rfl, hstored⟩ := h.1 hchild
    by_cases hc : c = .nil
    · subst hc
      exact .inr ⟨by simp [merkle], by simp [hchild, Represents]⟩
    · refine .inl ⟨?_, hstored.load hc⟩
      simp [hchild, merkle_eq_nil, hc]
  · exact .inr ⟨by simp [hchild], h.2 hchild⟩

theorem resolve_extension (hc : (Patricia.Tree.extension key c).Canonical)
    (h : Represents hasher db (.extension key enc child hash dirty) (.extension key c))
    (pos : Digit) :
    ∃ child', (Node.extension key enc child hash dirty).resolveIfCollapsed db pos =
        .ok (.extension key enc child' hash dirty) ∧ Represents hasher db child' c := by
  have hok := h.isEmptyOrNil hc (by simp)
  obtain ⟨hslot, -⟩ := represents_extension.1 h
  obtain ⟨hcollapsed, n, hload, hn⟩ | ⟨hcollapsed, hn⟩ := hslot.resolve
  · refine ⟨_, ?_, hn⟩
    simp only [Node.resolveIfCollapsed, hok, isPosCollapsed, hcollapsed, encodedChildAt,
      hload, setChild, except_ok_bind, except_pure, if_true]
  · refine ⟨_, ?_, hn⟩
    simp only [Node.resolveIfCollapsed, hok, isPosCollapsed, hcollapsed, except_ok_bind,
      except_pure, Bool.false_eq_true, if_false]

theorem resolve_branch {enc : Digit → Bytes} (hc : ∃ i, ts i ≠ .nil)
    (h : ∀ i, Slot hasher db (enc i) (children i) (ts i)) (hash : Option Bytes) (dirty : Bool)
    (pos : Digit) :
    ∃ child', (Node.branch enc children hash dirty).resolveIfCollapsed db pos =
        .ok (.branch enc (update children pos child') hash dirty) ∧
      Represents hasher db child' (ts pos) := by
  have hok : (Node.branch enc children hash dirty).isEmptyOrNil = .ok () := by
    obtain ⟨i, hi⟩ := hc
    have hpos := Patricia.Tree.mem_positions.2 hi
    rw [← childPositions_eq h] at hpos
    have hnonempty := ne_nil_of_mem hpos
    simp [isEmptyOrNil, hnonempty]
  obtain ⟨hcollapsed, n, hload, hn⟩ | ⟨hcollapsed, hn⟩ := (h pos).resolve
  · refine ⟨_, ?_, hn⟩
    simp only [Node.resolveIfCollapsed, hok, isPosCollapsed, hcollapsed, encodedChildAt,
      hload, setChild, except_ok_bind, except_pure, if_true]
  · refine ⟨_, ?_, hn⟩
    simp only [Node.resolveIfCollapsed, hok, isPosCollapsed, hcollapsed, except_ok_bind,
      except_pure, Bool.false_eq_true, if_false, update_eq_self]

variable {pos : Digit}

/-- A child may be replaced by another node that stands for the same subtree. -/
theorem slots_update {enc : Digit → Bytes} (h : ∀ i, Slot hasher db (enc i) (children i) (ts i))
    (hslot : Slot hasher db (enc pos) child c) (i : Digit) :
    Slot hasher db (enc i) (update children pos child i) (update ts pos c i) := by
  by_cases hi : i = pos
  · subst hi
    simpa using hslot
  · simpa [hi] using h i

variable {child' : Node}

theorem Slot.loaded (h : Slot hasher db enc child c) (h' : Represents hasher db child' c) :
    Slot hasher db enc child' c := by
  refine ⟨fun heq => ?_, fun _ => h'⟩
  have hc : c = .nil := h'.eq_nil_iff.1 heq
  subst hc
  have hchild : child = .nil := by
    by_contra hne
    exact hne ((h.2 hne).eq_nil_iff.2 rfl)
  exact h.1 hchild

theorem Represents.load_extension
    (h : Represents hasher db (.extension key enc child hash dirty) (.extension key c))
    (h' : Represents hasher db child' c) :
    Represents hasher db (.extension key enc child' hash dirty) (.extension key c) := by
  rw [represents_extension] at h ⊢
  exact ⟨h.1.loaded h', h.2⟩

theorem Represents.load_branch {enc : Digit → Bytes}
    (h : Represents hasher db (.branch enc children hash dirty) (.branch ts))
    (h' : Represents hasher db child' (ts pos)) :
    Represents hasher db (.branch enc (update children pos child') hash dirty)
      (.branch ts) := by
  rw [represents_branch] at h ⊢
  refine ⟨fun i => ?_, h.2⟩
  simpa using slots_update h.1 ((h.1 pos).loaded h') i

/-! ## Reading -/

variable {depth : Nat}

theorem tryGet_refines (h : Represents hasher db n t) (ht : t.Canonical) (hne : t ≠ .nil)
    (hdepth : key.length < depth) :
    ∃ n', tryGet db depth n key = .ok ((t.lookup key).map Subtype.val, n') ∧
      Represents hasher db n' t := by
  induction depth generalizing n t key with
  | zero => omega
  | succ depth ih =>
    have hok := h.isEmptyOrNil ht hne
    cases n with
    | nil => exact absurd h hne
    | leaf k value hash dirty =>
      refine ⟨_, ?_, h⟩
      obtain ⟨v, rfl, rfl, -⟩ := h
      by_cases hk : key = k <;>
        simp [tryGet, hok, Patricia.Tree.lookup, hk]
    | extension k enc child hash dirty =>
      obtain ⟨c, rfl, -⟩ := id h
      by_cases hk : k <+: key
      · obtain ⟨rest, rfl⟩ := hk
        obtain ⟨child', hresolve, hchild⟩ := resolve_extension ht h 0
        have hlen : rest.length < depth := by
          have := length_pos_of_ne_nil ht.1
          rw [length_append] at hdepth
          omega
        obtain ⟨child'', hget, hrep⟩ := ih hchild ht.2.2
          (Patricia.Tree.ne_nil_of_isBranch ht.2.1) hlen
        refine ⟨.extension k enc child'' hash dirty, ?_, ?_⟩
        · simp [tryGet, hok, hresolve, childAt, setChild, hget,
            Patricia.Tree.lookup_extension_append]
        · exact h.load_extension hrep
      · refine ⟨_, ?_, h⟩
        simp [tryGet, hok, hk, Patricia.Tree.lookup]
    | branch enc children hash dirty =>
      obtain ⟨ts, rfl, -⟩ := id h
      cases key with
      | nil =>
        refine ⟨_, ?_, h⟩
        simp [tryGet, hok, Patricia.Tree.lookup]
      | cons pos rest =>
        obtain ⟨child', hresolve, hchild⟩ :=
          resolve_branch (Canonical.exists_child ht) (represents_branch.1 h).1 hash dirty pos
        by_cases hnil : child' = .nil
        · refine ⟨_, ?_, h.load_branch hchild⟩
          simp [tryGet, hok, hresolve, childAt, hnil, hchild.eq_nil_iff.1 hnil,
            Patricia.Tree.lookup]
        have hsub := hchild.tree_ne_nil hnil
        obtain ⟨child'', hget, hrep⟩ := ih hchild (ht.2 pos) hsub (by simpa using hdepth)
        refine ⟨_, ?_, h.load_branch hrep⟩
        simp [tryGet, hok, hresolve, childAt, setChild, hnil, hget, Patricia.Tree.lookup]

/-! ## Insertion -/

theorem represents_newLeafNode (key : List Digit) (value : Value) :
    Represents hasher db (newLeafNode key value.1) (.leaf key value) :=
  ⟨value, rfl, rfl, Marks.fresh _ _⟩

theorem represents_newExtensionNode (h : Represents hasher db child c) (hne : child ≠ .nil)
    (key : List Digit) :
    Represents hasher db (newExtensionNode key child) (.extension key c) :=
  represents_extension.2 ⟨Slot.of_represents h hne, Marks.fresh _ _⟩

theorem represents_underShared (h : Represents hasher db n t) (hne : n ≠ .nil)
    (shared : List Digit) :
    Represents hasher db (underShared shared n) (.wrap shared t) := by
  unfold underShared Patricia.Tree.wrap
  split
  · exact h
  · exact represents_newExtensionNode h hne shared

theorem Node.underShared_ne_nil (hne : n ≠ .nil) (shared : List Digit) :
    underShared shared n ≠ .nil := by
  unfold underShared
  split
  · exact hne
  · simp [newExtensionNode]

variable {x : Node} {tx : PTree}

theorem represents_newBranchNode {a b : Digit} {y : Node} {ty : PTree}
    (hx : Represents hasher db x tx) (hxne : x ≠ .nil) (hy : Represents hasher db y ty)
    (hyne : y ≠ .nil) :
    Represents hasher db (newBranchNode a x b y) (.fork a tx b ty) := by
  refine represents_branch.2 ⟨fun i => ?_, Marks.fresh _ _⟩
  by_cases hb : i = b
  · subst hb
    simpa using Slot.of_represents hy hyne
  · by_cases ha : i = a
    · subst ha
      simpa [hb] using Slot.of_represents hx hxne
    · simpa [ha, hb] using Slot.nil

theorem Represents.replace_branch {enc : Digit → Bytes}
    (h : Represents hasher db (.branch enc children hash dirty) (.branch ts))
    (h' : Represents hasher db child c) (hne : child ≠ .nil) :
    Represents hasher db (.branch enc (update children pos child) none true)
      (.branch (update ts pos c)) := by
  rw [represents_branch] at h ⊢
  exact ⟨slots_update h.1 (Slot.of_represents h' hne), Marks.fresh _ _⟩

/-- The child of an extension node is loaded. -/
def Node.Unfolded : Node → Prop
  | .extension _ _ child _ _ => child ≠ .nil
  | _ => True

/-- The outcome of an insertion or a deletion that turns one tree into another. -/
def Yields (hasher : Hasher Digit) (db : Database)
    (result : Except NodeError (Bool × Node × List Bytes)) (t t' : PTree) : Prop :=
  ∃ dirty n oldHashes, result = .ok (dirty, n, oldHashes) ∧ Represents hasher db n t' ∧
    (dirty = false → t' = t) ∧ (dirty = true → n.Unfolded)

theorem Yields.unchanged (h : Represents hasher db n t) :
    Yields hasher db (.ok (false, n, [])) t t :=
  ⟨false, n, [], rfl, h, fun _ => rfl, fun hd => (by cases hd)⟩

theorem Yields.changed {t' : PTree} (h : Represents hasher db n t') (hn : n.Unfolded)
    (oldHashes : List Bytes) (t : PTree) : Yields hasher db (.ok (true, n, oldHashes)) t t' :=
  ⟨true, n, oldHashes, rfl, h, fun hd => (by cases hd), fun _ => hn⟩

theorem Node.unfolded_underShared (hn : n.Unfolded) (hne : n ≠ .nil) (shared : List Digit) :
    (underShared shared n).Unfolded := by
  unfold underShared
  split
  · exact hn
  · exact hne

/-- A node and a new leaf under a new branch node, where the two keys part. -/
theorem Yields.split (hx : Represents hasher db x tx) (hxne : x ≠ .nil) (a b : Digit)
    (shared rest : List Digit) (value : Value) (oldHashes : List Bytes) (t : PTree) :
    Yields hasher db
      (.ok (true, underShared shared
        (newBranchNode a x b (newLeafNode rest value.1)), oldHashes)) t
      (.wrap shared (.fork a tx b (.leaf rest value))) := by
  have hbranch : newBranchNode a x b (newLeafNode rest value.1) ≠ .nil := by
    simp [newBranchNode]
  have hfork : Represents hasher db (newBranchNode a x b (newLeafNode rest value.1))
      (.fork a tx b (.leaf rest value)) :=
    represents_newBranchNode hx hxne (represents_newLeafNode rest value) (by simp [newLeafNode])
  have hunfolded : (newBranchNode a x b (newLeafNode rest value.1)).Unfolded := trivial
  exact Yields.changed (represents_underShared hfork hbranch shared)
    (unfolded_underShared hunfolded hbranch shared) oldHashes t

theorem insert_refines (value : Value) (h : Represents hasher db n t) (ht : t.Canonical)
    (hne : t ≠ .nil) (hfar : t.Apart key) (hdepth : key.length < depth) :
    Yields hasher db (Node.insert db depth n key value.1) t (t.insert key value) := by
  induction depth generalizing n t key with
  | zero => omega
  | succ depth ih =>
    have hok := h.isEmptyOrNil ht hne
    cases n with
    | nil => exact absurd h hne
    | leaf k old hash dirty =>
      obtain ⟨v, rfl, rfl, hmarks⟩ := id h
      by_cases hk : key = k
      · subst hk
        simp only [Node.insert, hok, except_ok_bind, except_pure, if_true, Patricia.Tree.insert]
        by_cases hv : v = value
        · subst hv
          simpa using Yields.unchanged h
        · have hv' : v.1 ≠ value.1 := fun heq => hv (Subtype.ext heq)
          rw [if_neg hv']
          exact Yields.changed (represents_newLeafNode key value) trivial _ _
      · obtain ⟨hnk, hnkey⟩ := hfar.leaf hk
        obtain ⟨m, a, ks, b, rest, hdk, hdkey, hm, -, -, -⟩ :=
          Patricia.Tree.exists_parting hnk hnkey
        simp only [Node.insert, hok, except_ok_bind, except_pure, hk, if_false, hdk, hdkey, hm,
          Patricia.Tree.insert]
        exact Yields.split (represents_newLeafNode ks v) (by simp [Node.newLeafNode]) a b m rest
          value _ _
    | extension k enc child hash dirty =>
      obtain ⟨c, rfl, -⟩ := id h
      obtain ⟨child', hresolve, hchild⟩ := resolve_extension ht h 0
      have hsub := Patricia.Tree.ne_nil_of_isBranch ht.2.1
      by_cases hk : k <+: key
      · obtain ⟨rest, rfl⟩ := hk
        have hlen : rest.length < depth := by
          have := length_pos_of_ne_nil ht.1
          rw [length_append] at hdepth
          omega
        have hmatch : prefixLen (k ++ rest) k = k.length := by
          rw [Patricia.prefixLen_comm, Patricia.prefixLen_append]
        obtain ⟨changed, newNode, old, hins, hrep, hsame, -⟩ :=
          ih hchild ht.2.2 hsub hfar.extension hlen
        simp only [Node.insert, hok, hresolve, except_ok_bind, except_pure, hmatch, if_true,
          drop_left, Node.childAt, hins, Patricia.Tree.insert_extension_append]
        cases changed with
        | true =>
          have hnew := hrep.ne_nil (ht.2.2.insert hfar.extension value).2
          exact Yields.changed (represents_newExtensionNode hrep hnew k) hnew _ _
        | false =>
          rw [hsame rfl] at hrep ⊢
          exact Yields.unchanged (h.load_extension hrep)
      · obtain ⟨m, a, ks, b, rest, hdk, hdkey, hm, -, -, -⟩ :=
          Patricia.Tree.exists_parting hk (ht.not_isPrefix_of_apart hfar)
        have hmatch : prefixLen key k ≠ k.length := by
          intro heq
          rw [heq, drop_length] at hdk
          cases hdk
        have hchildne := hchild.ne_nil hsub
        simp only [Node.insert, hok, hresolve, except_ok_bind, except_pure, hmatch, if_false,
          hdk, hdkey, hm, Patricia.Tree.insert, Node.childAt]
        exact Yields.split (represents_underShared hchild hchildne ks)
          (Node.underShared_ne_nil hchildne ks) a b m rest value _ _
    | branch enc children hash dirty =>
      obtain ⟨ts, rfl, -⟩ := id h
      cases key with
      | nil => exact absurd rfl (ht.ne_nil_of_apart hfar)
      | cons pos rest =>
        obtain ⟨child', hresolve, hchild⟩ :=
          resolve_branch (Canonical.exists_child ht) (represents_branch.1 h).1 hash dirty pos
        simp only [Node.insert, hok, hresolve, except_ok_bind, except_pure, Node.childAt,
          Node.setChild, Function.update_self, Function.update_idem, Patricia.Tree.insert]
        by_cases hnil : child' = .nil
        · rw [hchild.eq_nil_iff.1 hnil, if_pos (by simp [hnil])]
          exact Yields.changed (h.replace_branch (represents_newLeafNode rest value)
            (by simp [Node.newLeafNode])) trivial _ _
        have hsub := hchild.tree_ne_nil hnil
        obtain ⟨changed, newNode, old, hins, hrep, hsame, -⟩ :=
          ih hchild (ht.2 pos) hsub hfar.branch (by simpa using hdepth)
        rw [if_neg (by simp [hnil]), hins]
        cases changed with
        | true =>
          have hnew := hrep.ne_nil ((ht.2 pos).insert hfar.branch value).2
          exact Yields.changed (h.replace_branch hrep hnew) trivial _ _
        | false =>
          rw [hsame rfl] at hrep ⊢
          rw [Function.update_eq_self]
          exact Yields.unchanged (h.load_branch hrep)

/-! ## Deletion -/

/-- Loading the child that is needed to draw a node into the one above it. -/
theorem Represents.resolve (h : Represents hasher db n t) (ht : t.Canonical) (hne : t ≠ .nil)
    (pos : Digit) :
    ∃ n', n.resolveIfCollapsed db pos = .ok n' ∧ Represents hasher db n' t ∧ n'.Unfolded := by
  have hok := h.isEmptyOrNil ht hne
  cases n with
  | nil => exact absurd h hne
  | leaf k value hash dirty =>
    refine ⟨_, ?_, h, trivial⟩
    simp [Node.resolveIfCollapsed, hok, isPosCollapsed]
  | extension k enc child hash dirty =>
    obtain ⟨c, rfl, -⟩ := id h
    obtain ⟨child', hresolve, hchild⟩ := resolve_extension ht h pos
    exact ⟨_, hresolve, h.load_extension hchild,
      hchild.ne_nil (Patricia.Tree.ne_nil_of_isBranch ht.2.1)⟩
  | branch enc children hash dirty =>
    obtain ⟨ts, rfl, -⟩ := id h
    obtain ⟨child', hresolve, hchild⟩ :=
      resolve_branch (Canonical.exists_child ht) (represents_branch.1 h).1 hash dirty pos
    exact ⟨_, hresolve, h.load_branch hchild, trivial⟩

theorem represents_mergeInto (h : Represents hasher db n t) (hn : n.Unfolded) (hne : t ≠ .nil)
    (key : List Digit) :
    Represents hasher db (n.mergeInto key) (.prepend key t) ∧ (n.mergeInto key).Unfolded := by
  cases n with
  | nil => exact absurd h hne
  | leaf k value hash dirty =>
    obtain ⟨v, rfl, rfl, -⟩ := h
    exact ⟨represents_newLeafNode (key ++ k) v, trivial⟩
  | extension k enc child hash dirty =>
    obtain ⟨c, rfl, hslot, -⟩ := h
    exact ⟨represents_newExtensionNode (hslot.2 hn) hn (key ++ k), hn⟩
  | branch enc children hash dirty =>
    obtain ⟨ts, rfl, -⟩ := id h
    exact ⟨represents_newExtensionNode h (by simp) key, (by simp : Node.branch _ _ _ _ ≠ .nil)⟩

theorem Node.reduceNode_eq (hne : n ≠ .nil) (pos : Digit) :
    ∃ given, n.reduceNode pos = .ok (n.mergeInto [pos], given) := by
  cases n with
  | nil => exact absurd rfl hne
  | leaf => exact ⟨true, rfl⟩
  | extension => exact ⟨true, rfl⟩
  | branch => exact ⟨false, rfl⟩

theorem reduceNodeIfNecessary_refines {enc : Digit → Bytes}
    (h : ∀ i, Slot hasher db (enc i) (children i) (ts i)) (hts : ∀ i, (ts i).Canonical)
    (hsome : ∃ i, ts i ≠ .nil) (dirty : Bool) (oldHashes : List Bytes) (t : PTree) :
    Yields hasher db (reduceNodeIfNecessary db enc children none dirty oldHashes) t
      (.reduce ts) := by
  unfold reduceNodeIfNecessary Patricia.Tree.reduce
  rw [childPositions_eq h]
  match hpos : Patricia.Tree.positions ts with
  | [pos] =>
    have hne : ts pos ≠ .nil := Patricia.Tree.mem_positions.1 (by simp [hpos])
    obtain ⟨child, hresolve, hchild⟩ := resolve_branch hsome h none dirty pos
    obtain ⟨child', hresolve', hchild', hunfolded⟩ := hchild.resolve (hts pos) hne pos
    obtain ⟨given, hreduce⟩ := reduceNode_eq (hchild'.ne_nil hne) pos
    obtain ⟨hmerge, hmerged⟩ := represents_mergeInto hchild' hunfolded hne [pos]
    simp only [hresolve, except_ok_bind, except_pure, childAt, update_self, hresolve', hreduce]
    exact Yields.changed hmerge hmerged _ _
  | [] =>
    exact Yields.changed (represents_branch.2 ⟨h, Marks.fresh _ _⟩) trivial _ _
  | _ :: _ :: _ =>
    exact Yields.changed (represents_branch.2 ⟨h, Marks.fresh _ _⟩) trivial _ _

theorem delete_refines (h : Represents hasher db n t) (ht : t.Canonical) (hne : t ≠ .nil)
    (hfar : t.Apart key) (hdepth : key.length < depth) :
    Yields hasher db (delete db depth n key) t (t.delete key) := by
  induction depth generalizing n t key with
  | zero => omega
  | succ depth ih =>
    have hok := h.isEmptyOrNil ht hne
    cases n with
    | nil => exact absurd h hne
    | leaf k old hash dirty =>
      obtain ⟨v, rfl, rfl, hmarks⟩ := id h
      by_cases hk : key = k
      · simp only [delete, hk, if_true, Patricia.Tree.delete]
        exact Yields.changed (n := .nil) (show Patricia.Tree.nil = .nil from rfl) trivial _ _
      · simp only [delete, hk, if_false, Patricia.Tree.delete]
        exact Yields.unchanged h
    | extension k enc child hash dirty =>
      obtain ⟨c, rfl, -⟩ := id h
      have hnot := ht.not_isPrefix_of_apart hfar
      have hkey : key ≠ [] := fun heq => hnot (by simp [heq])
      have hsub := Patricia.Tree.ne_nil_of_isBranch ht.2.1
      by_cases hk : k <+: key
      · obtain ⟨rest, rfl⟩ := hk
        have hlen : rest.length < depth := by
          have := length_pos_of_ne_nil ht.1
          rw [length_append] at hdepth
          omega
        have hmatch : ¬ prefixLen (k ++ rest) k < k.length := by
          rw [Patricia.prefixLen_comm, Patricia.prefixLen_append]
          omega
        obtain ⟨child', hresolve, hchild⟩ := resolve_extension ht h 0
        obtain ⟨changed, newNode, old, hdel, hrep, hsame, hunfolded⟩ :=
          ih hchild ht.2.2 hsub hfar.extension hlen
        have hbelow := ht.2.2.delete rest
        simp only [delete, hok, hresolve, except_ok_bind, except_pure, hkey, hmatch, if_false,
          drop_left, childAt, hdel, Patricia.Tree.delete, prefix_append, if_true]
        cases changed with
        | true =>
          obtain ⟨hmerge, hmerged⟩ :=
            represents_mergeInto hrep (hunfolded rfl) (hbelow.2 ht.2.1) k
          exact Yields.changed hmerge hmerged _ _
        | false =>
          have hprepend : Patricia.Tree.prepend k c = .extension k c := by
            cases c with
            | nil | leaf | extension => cases ht.2.1
            | branch => rfl
          rw [hsame rfl] at hrep ⊢
          rw [hprepend]
          exact Yields.unchanged (h.load_extension hrep)
      · have hmatch : prefixLen key k < k.length := Patricia.prefixLen_lt hk
        simp only [delete, hok, except_ok_bind, except_pure, hkey, hmatch, if_false, if_true,
          Patricia.Tree.delete, hk]
        exact Yields.unchanged h
    | branch enc children hash dirty =>
      obtain ⟨ts, rfl, -⟩ := id h
      cases key with
      | nil => exact absurd rfl (ht.ne_nil_of_apart hfar)
      | cons pos rest =>
        obtain ⟨child', hresolve, hchild⟩ :=
          resolve_branch (Canonical.exists_child ht) (represents_branch.1 h).1 hash dirty pos
        simp only [delete, hok, hresolve, except_ok_bind, except_pure, childAt,
          setChild, update_self, update_idem, Patricia.Tree.delete]
        by_cases hnil : child' = .nil
        · have hsame : update ts pos ((ts pos).delete rest) = ts := by
            rw [hchild.eq_nil_iff.1 hnil, Patricia.Tree.delete, ← hchild.eq_nil_iff.1 hnil,
              update_eq_self]
          rw [hsame, ht.reduce_eq, if_pos (by simp [hnil])]
          exact Yields.unchanged (h.load_branch hchild)
        · have hsub := hchild.tree_ne_nil hnil
          obtain ⟨changed, newNode, old, hdel, hrep, hsame, -⟩ :=
            ih hchild (ht.2 pos) hsub hfar.branch (by simpa using hdepth)
          rw [if_neg (by simp [hnil]), hdel]
          cases changed with
          | true =>
            obtain ⟨hcanon, hsome⟩ := ht.update_delete pos rest ((ht.2 pos).delete rest).1
            refine reduceNodeIfNecessary_refines (fun i => ?_) hcanon hsome dirty _ _
            have hslots := (represents_branch.1 h).1
            by_cases hi : i = pos
            · subst hi
              by_cases hnew : newNode = .nil
              · rw [hrep.eq_nil_iff.1 hnew] at *
                simpa [hnew] using Slot.nil
              · simpa [hnew] using Slot.of_represents hrep hnew
            · by_cases hnew : newNode = .nil <;> simpa [hi, hnew] using hslots i
          | false =>
            rw [hsame rfl] at hrep ⊢
            rw [update_eq_self, ht.reduce_eq]
            exact Yields.unchanged (h.load_branch hrep)

end KleverGo.Trie
