import KleverGo.Trie.NodeRefines

/-!
# Hashing and committing nodes

* `setHash_refines` — the hash of a node is the Merkle hash of the tree it stands for;
* `commit_refines` — after `commit` the database holds the tree, the node still stands for it, and
  nothing that was stored has changed.

`commit` clears the dirty flag of a node before it writes the node.  In between the node stands for
the tree but for what its own flag says (`Held`).
-/

namespace KleverGo.Trie

open Node

/-! ## Loops over the children -/

variable {ε α : Type}

theorem forEach_eq_ok {n : Nat} {f : Fin n → Except ε α} {g : Fin n → α}
    (h : ∀ i, f i = .ok (g i)) : forEach f = .ok g := by
  induction n with
  | zero =>
    have hg : g = Fin.elim0 := funext fun i => i.elim0
    rw [hg]
    rfl
  | succ n ih =>
    have hrest : forEach (fun i : Fin n => f i.succ) = .ok fun i => g i.succ := ih fun i => h i.succ
    simp only [forEach, h 0, hrest]
    exact congrArg Except.ok (Fin.cons_self_tail g)

/-- A loop over a state that only grows: what each turn establishes still holds at the end. -/
theorem forEach_state {σ : Type} {n : Nat} {f : Fin n → StateT σ (Except ε) α} {R : σ → σ → Prop}
    (hrefl : ∀ s, R s s) (htrans : ∀ {s s' s''}, R s s' → R s' s'' → R s s'')
    {Q : Fin n → α → σ → Prop} (hQ : ∀ {i a s s'}, Q i a s → R s s' → Q i a s') {s : σ}
    (hf : ∀ i s', R s s' → ∃ a s'', f i s' = .ok (a, s'') ∧ R s' s'' ∧ Q i a s'') :
    ∃ g s', forEach f s = .ok (g, s') ∧ R s s' ∧ ∀ i, Q i (g i) s' := by
  induction n generalizing s with
  | zero => exact ⟨Fin.elim0, s, rfl, hrefl s, fun i => i.elim0⟩
  | succ n ih =>
    obtain ⟨a, s1, ha, hgrow, hfirst⟩ := hf 0 s (hrefl s)
    obtain ⟨rest, s2, hrest, hgrow', hothers⟩ := ih (f := fun i => f i.succ)
      (Q := fun i => Q i.succ) hQ fun i s' hs' => hf i.succ s' (htrans hgrow hs')
    refine ⟨Fin.cons a rest, s2, ?_, htrans hgrow hgrow', fun i => ?_⟩
    · simp only [forEach, bind, StateT.bind, Except.bind, ha, hrest]
      rfl
    · refine Fin.cases ?_ (fun j => ?_) i
      · exact hQ hfirst hgrow'
      · exact hothers j

/-! ## The database only grows -/

/-- What is stored stays as it is. -/
def Extends (db db' : Database) : Prop :=
  ∀ h content, db.lookup h = some content → db'.lookup h = some content

theorem Extends.refl (db : Database) : Extends db db := fun _ _ h => h

variable {db'' : Database}

theorem Extends.trans {db db' : Database} (h : Extends db db') (h' : Extends db' db'') :
    Extends db db'' :=
  fun x content hx => h' x content (h x content hx)

section Growth

variable {hasher : Hasher Digit} {db db' : Database}

variable {t : PTree}

theorem Stored.mono (hext : Extends db db') (h : Stored hasher db t) : Stored hasher db' t := by
  induction t with
  | nil => trivial
  | leaf key value => exact hext _ _ h
  | extension key child ih => exact ⟨hext _ _ h.1, ih h.2⟩
  | branch children ih => exact ⟨hext _ _ h.1, fun i => ih i (h.2 i)⟩

theorem Marks.mono {hash : Option Bytes} {dirty : Bool} {inStep : Prop} (hext : Extends db db')
    (h : Marks hasher db hash dirty inStep t) :
    Marks hasher db' hash dirty inStep t :=
  ⟨h.cached, fun hd => ⟨(h.clean hd).1, (h.clean hd).2.mono hext⟩⟩

theorem Represents.mono {n : Node} (hext : Extends db db') (h : Represents hasher db n t) :
    Represents hasher db' n t := by
  induction n generalizing t with
  | nil => exact h
  | leaf key value hash dirty =>
    obtain ⟨v, hv, ht, hmarks⟩ := h
    exact ⟨v, hv, ht, hmarks.mono hext⟩
  | extension key enc child hash dirty ih =>
    obtain ⟨c, ht, hslot, hmarks⟩ := h
    exact ⟨c, ht, ⟨fun hn => ⟨(hslot.1 hn).1, (hslot.1 hn).2.mono hext⟩,
      fun hn => ih (hslot.2 hn)⟩, hmarks.mono hext⟩
  | branch enc children hash dirty ih =>
    obtain ⟨ts, ht, hslots, hmarks⟩ := h
    exact ⟨ts, ht, fun i => ⟨fun hn => ⟨((hslots i).1 hn).1, ((hslots i).1 hn).2.mono hext⟩,
      fun hn => ih i ((hslots i).2 hn)⟩, hmarks.mono hext⟩

end Growth

/-! ## Trees and their stored form -/

section Stored

variable (hasher : Hasher Digit)

/-- What a tree is stored as. -/
def content : PTree → Option (Collapsed Digit)
  | .nil => none
  | .leaf key value => some (.leaf key value.1)
  | .extension key child => some (.extension key (merkle hasher child))
  | .branch children => some (.branch fun i => merkle hasher (children i))

/-- The subtrees are in the database. -/
def StoredBelow (db : Database) : PTree → Prop
  | .nil => True
  | .leaf _ _ => True
  | .extension _ child => Stored hasher db child
  | .branch children => ∀ i, Stored hasher db (children i)

variable {hasher} {db : Database}

variable {t : PTree} {c : Collapsed Digit}

theorem merkle_eq_compute (h : content hasher t = some c) : merkle hasher t = hasher.compute c := by
  cases t with
  | nil => cases h
  | leaf | extension | branch => cases h; rfl

theorem stored_iff (h : content hasher t = some c) :
    Stored hasher db t ↔ db.lookup (merkle hasher t) = some c ∧ StoredBelow hasher db t := by
  cases t with
  | nil => cases h
  | leaf => cases h; simp [Stored, StoredBelow]
  | extension | branch => cases h; exact Iff.rfl

theorem Stored.below (h : Stored hasher db t) : StoredBelow hasher db t := by
  cases t with
  | nil | leaf => trivial
  | extension | branch => exact h.2

theorem write (h : content hasher t = some c) (hdb : WellKeyed hasher db)
    (hbelow : StoredBelow hasher db t) :
    WellKeyed hasher (db.insert (merkle hasher t) c) ∧
      Extends db (db.insert (merkle hasher t) c) ∧
      Stored hasher (db.insert (merkle hasher t) c) t := by
  have hkey := merkle_eq_compute h
  have hext : Extends db (db.insert (merkle hasher t) c) := by
    intro x d hx
    by_cases heq : x = merkle hasher t
    · subst heq
      rw [Finmap.lookup_insert]
      exact congrArg some (hasher.injective (hkey.symm.trans (hdb _ _ hx).symm))
    · rwa [Finmap.lookup_insert_of_ne _ heq]
  refine ⟨?_, hext, (stored_iff h).2 ⟨Finmap.lookup_insert _, ?_⟩⟩
  · intro x d hx
    by_cases heq : x = merkle hasher t
    · subst heq
      rw [Finmap.lookup_insert] at hx
      cases hx
      exact hkey.symm
    · rw [Finmap.lookup_insert_of_ne _ heq] at hx
      exact hdb x d hx
  · cases t with
    | nil | leaf => trivial
    | extension => exact Stored.mono hext hbelow
    | branch => exact fun i => Stored.mono hext (hbelow i)

end Stored

/-! ## Nodes up to their own dirty flag -/

/-- The node stands for the tree, whatever its own dirty flag says. -/
def Held (hasher : Hasher Digit) (db : Database) (n : Node) (t : PTree) : Prop :=
  Represents hasher db (n.setDirty true) t

variable {hasher : Hasher Digit} {db : Database}

variable {inStep : Prop} {t : PTree}

theorem marks_iff {hash : Option Bytes} {dirty : Bool} :
    Marks hasher db hash dirty inStep t ↔
      Marks hasher db hash true inStep t ∧
        (dirty = false → hash.isSome = true ∧ Stored hasher db t) :=
  ⟨fun h => ⟨⟨h.cached, fun hd => (by cases hd)⟩, h.clean⟩, fun h => ⟨h.1.cached, h.2⟩⟩

variable {n : Node}

theorem represents_iff_held (hne : n ≠ .nil) :
    Represents hasher db n t ↔
      Held hasher db n t ∧ (n.isDirty = false → n.getHash.isSome = true ∧ Stored hasher db t) := by
  cases n with
  | nil => exact absurd rfl hne
  | leaf | extension | branch =>
    -- the parts besides the marks do not read the flag
    constructor
    · rintro ⟨x, hx, hpart, hmarks⟩
      obtain ⟨hmarks, hclean⟩ := marks_iff.1 hmarks
      exact ⟨⟨x, hx, hpart, hmarks⟩, hclean⟩
    · rintro ⟨⟨x, hx, hpart, hmarks⟩, hclean⟩
      exact ⟨x, hx, hpart, marks_iff.2 ⟨hmarks, hclean⟩⟩

theorem Held.isEmptyOrNil (h : Held hasher db n t) (ht : t.Canonical) (hne : t ≠ .nil) :
    n.isEmptyOrNil = .ok () := by
  have hok := Represents.isEmptyOrNil h ht hne
  cases n <;> exact hok

theorem Held.ne_nil (h : Held hasher db n t) (hne : t ≠ .nil) : n ≠ .nil := by
  rintro rfl
  exact hne h

/-! ## Hashes -/

section
variable (h : Held hasher db n t) (ht : t.Canonical) (hne : t ≠ .nil)
  (hhash : n.getHash.isSome = true)
include h ht hne hhash

/-- A node whose hash is cached is marshalled to what its tree is stored as. -/
theorem Held.getEncodedNode : ∃ c, content hasher t = some c ∧ n.getEncodedNode = .ok c := by
  have hok := h.isEmptyOrNil ht hne
  obtain ⟨x, hx⟩ := Option.isSome_iff_exists.1 hhash
  cases n with
  | nil => exact absurd h hne
  | leaf key value hash dirty =>
    obtain ⟨v, rfl, rfl, -⟩ := h
    exact ⟨_, rfl, by simp [getEncodedNode, hok]⟩
  | extension key enc child hash dirty =>
    obtain ⟨c, rfl, -, hmarks⟩ := h
    obtain ⟨-, rfl⟩ := hmarks.cached x hx
    exact ⟨_, rfl, by simp [getEncodedNode, hok]⟩
  | branch enc children hash dirty =>
    obtain ⟨ts, rfl, -, hmarks⟩ := h
    obtain ⟨-, hstep⟩ := hmarks.cached x hx
    obtain rfl : enc = fun i => merkle hasher (ts i) := funext hstep
    exact ⟨_, rfl, by simp [getEncodedNode, hok]⟩

theorem Held.encodeNodeAndGetHash : n.encodeNodeAndGetHash hasher = .ok (merkle hasher t) := by
  obtain ⟨c, hc, henc⟩ := h.getEncodedNode ht hne hhash
  simp [Node.encodeNodeAndGetHash, henc, merkle_eq_compute hc]

end

theorem Held.cached (h : Held hasher db n t) (hne : t ≠ .nil) {x : Bytes}
    (hx : n.getHash = some x) : x = merkle hasher t := by
  cases n with
  | nil => exact absurd h hne
  | leaf | extension | branch =>
    obtain ⟨_, -, -, hmarks⟩ := h
    exact (hmarks.cached x hx).1

/-- The outcome of hashing: the same tree and flag, and the hash of the tree. -/
def Hashes (hasher : Hasher Digit) (db : Database) (result : Except NodeError Node) (dirty : Bool)
    (t : PTree) : Prop :=
  ∃ n, result = .ok n ∧ Held hasher db n t ∧ n.getHash = some (merkle hasher t) ∧ n.isDirty = dirty

theorem Marks.hashed (hstep : inStep) (t : PTree) :
    Marks hasher db (some (merkle hasher t)) true inStep t :=
  ⟨fun x hx => ⟨(Option.some.inj hx).symm, hstep⟩, fun hd => (by cases hd)⟩

theorem Hashes.of_cached (h : Held hasher db n t) (hne : t ≠ .nil)
    (hhash : n.getHash.isSome = true) : Hashes hasher db (.ok n) n.isDirty t := by
  obtain ⟨x, hx⟩ := Option.isSome_iff_exists.1 hhash
  exact ⟨n, rfl, h, by rw [hx, h.cached hne hx], rfl⟩

variable {child : Node} {c : PTree}

theorem Hashes.extension (key : List Digit) (hslot : Slot hasher db (merkle hasher c) child c)
    (hc : c ≠ .nil) (dirty : Bool) :
    Hashes hasher db ((Node.extension key (merkle hasher c) child none dirty).hashed hasher) dirty
      (.extension key c) := by
  refine ⟨.extension key (merkle hasher c) child (some (merkle hasher (.extension key c))) dirty,
    ?_, represents_extension.2 ⟨hslot, Marks.hashed rfl _⟩, rfl, rfl⟩
  simp [Node.hashed, encodeNodeAndGetHash, getEncodedNode, isEmptyOrNil,
    merkle_eq_nil, hc, setGivenHash, merkle]

theorem Hashes.branch {children : Digit → Node} {ts : Digit → PTree}
    (hslots : ∀ i, Slot hasher db (merkle hasher (ts i)) (children i) (ts i))
    (hts : ∃ i, ts i ≠ .nil) (dirty : Bool) :
    Hashes hasher db
      ((Node.branch (fun i => merkle hasher (ts i)) children none dirty).hashed hasher) dirty
      (.branch ts) := by
  refine ⟨.branch (fun i => merkle hasher (ts i)) children (some (merkle hasher (.branch ts))) dirty,
    ?_, represents_branch.2 ⟨hslots, Marks.hashed (fun _ => rfl) _⟩, rfl, rfl⟩
  have hpos : childPositions (fun i => merkle hasher (ts i)) children ≠ [] := by
    obtain ⟨i, hi⟩ := hts
    rw [childPositions_eq hslots]
    exact List.ne_nil_of_mem (Patricia.Tree.mem_positions.2 hi)
  simp [Node.hashed, encodeNodeAndGetHash, getEncodedNode, isEmptyOrNil, hpos, setGivenHash, merkle]

theorem Hashes.represents {result : Except NodeError Node}
    (h : Hashes hasher db result child.isDirty c) (hchild : Represents hasher db child c)
    (hc : c ≠ .nil) :
    ∃ child', result = .ok child' ∧ Represents hasher db child' c ∧
      child'.getHash = some (merkle hasher c) ∧ child'.isDirty = child.isDirty := by
  obtain ⟨child', hresult, hheld, hhash, hdirty⟩ := h
  refine ⟨child', hresult, ?_, hhash, hdirty⟩
  refine (represents_iff_held (hheld.ne_nil hc)).2 ⟨hheld, fun hclean => ⟨by simp [hhash], ?_⟩⟩
  rw [hdirty] at hclean
  exact (((represents_iff_held (hchild.ne_nil hc)).1 hchild).2 hclean).2

/-- A child that is not loaded stays as it is, and a loaded one is hashed. -/
theorem Slot.hashes {enc : Bytes} (hslot : Slot hasher db enc child c) (ht : c.Canonical)
    (ih : Held hasher db child c → c ≠ .nil →
      Hashes hasher db (child.setHash hasher) child.isDirty c) :
    ∃ child', (if child.isNil = true then pure Node.nil else child.setHash hasher) = .ok child' ∧
      (child' = .nil ↔ child = .nil) ∧ Slot hasher db (merkle hasher c) child' c ∧
      (if child'.isNil = true then pure enc else child'.encodeNodeAndGetHash hasher) =
        .ok (merkle hasher c) := by
  by_cases hnil : child = .nil
  · obtain ⟨henc, hstored⟩ := hslot.1 hnil
    exact ⟨.nil, by simp [hnil], by simp [hnil], .of_stored hstored, by simp [henc]⟩
  have hchild := hslot.2 hnil
  have hc := hchild.tree_ne_nil hnil
  have hheld := ((represents_iff_held hnil).1 hchild).1
  obtain ⟨child', hset, hrep, hhash, -⟩ := (ih hheld hc).represents hchild hc
  have hne' := hrep.ne_nil hc
  have henc := ((represents_iff_held hne').1 hrep).1.encodeNodeAndGetHash ht hc (by simp [hhash])
  exact ⟨child', by simp [hnil, hset], by simp [hnil, hne'], Slot.of_represents hrep hne',
    by simp [hne', henc]⟩

theorem setHash_held (h : Held hasher db n t) (ht : t.Canonical) (hne : t ≠ .nil) :
    Hashes hasher db (n.setHash hasher) n.isDirty t := by
  induction n generalizing t with
  | nil => exact absurd h hne
  | leaf key value hash dirty =>
    have hok := h.isEmptyOrNil ht hne
    cases hash with
    | some x => simpa [setHash, hok] using
        Hashes.of_cached h hne (by rfl)
    | none =>
      obtain ⟨v, rfl, rfl, -⟩ := h
      refine ⟨.leaf key v.1 (some (merkle hasher (.leaf key v))) dirty, ?_,
        ⟨v, rfl, rfl, Marks.hashed trivial _⟩, rfl, rfl⟩
      simp [setHash, hok, Node.hashed, encodeNodeAndGetHash, getEncodedNode, setGivenHash, merkle]
  | extension key enc child hash dirty ih =>
    have hok := h.isEmptyOrNil ht hne
    cases hash with
    | some x => simpa [setHash, hok] using
        Hashes.of_cached h hne (by rfl)
    | none =>
      obtain ⟨c, rfl, hslot, -⟩ := h
      have hc := Patricia.Tree.ne_nil_of_isBranch ht.2.1
      by_cases hnil : child = .nil
      · subst hnil
        obtain ⟨rfl, hstored⟩ := hslot.1 rfl
        simpa [setHash, hok, Node.isDirty] using
          Hashes.extension key (.of_stored hstored) hc dirty
      obtain ⟨child', hset, hloaded, hslot', henc⟩ :=
        Slot.hashes hslot ht.2.2 fun hheld => ih hheld ht.2.2
      simp only [isNil_iff, hloaded, hnil, if_false] at hset henc
      simpa [setHash, hok, hnil, hset, henc, Node.isDirty] using
        Hashes.extension key hslot' hc dirty
  | branch enc children hash dirty ih =>
    have hok := h.isEmptyOrNil ht hne
    cases hash with
    | some x => simpa [setHash, hok] using
        Hashes.of_cached h hne (by rfl)
    | none =>
      obtain ⟨ts, rfl, hslots, -⟩ := h
      have hstep := fun i => Slot.hashes (hslots i) (ht.2 i) fun hheld => ih i hheld (ht.2 i)
      choose children' hchildren _ hslots' hencs using hstep
      have hset : (Node.branch enc children none dirty).setHash hasher =
          (Node.branch (fun i => merkle hasher (ts i)) children' none dirty).hashed hasher := by
        rw [setHash, hok, except_ok_bind, if_neg (by simp), forEach_eq_ok hchildren,
          except_ok_bind, forEach_eq_ok hencs, except_ok_bind]
      rw [hset]
      exact Hashes.branch hslots' (Canonical.exists_child ht) dirty

theorem setHash_refines (h : Represents hasher db n t) (ht : t.Canonical) (hne : t ≠ .nil) :
    ∃ n', n.setHash hasher = .ok n' ∧ Represents hasher db n' t ∧
      n'.getHash = some (merkle hasher t) ∧ n'.isDirty = n.isDirty :=
  (setHash_held ((represents_iff_held (h.ne_nil hne)).1 h).1 ht hne).represents h hne

/-! ## Collapsing -/

theorem validHash_refines (h : Represents hasher db child c) (hc : c.Canonical) (hne : c ≠ .nil) :
    ∃ child', child.validHash hasher = .ok (child', merkle hasher c) ∧
      Represents hasher db child' c := by
  have hok := h.isEmptyOrNil hc hne
  by_cases hvalid : child.getHash = none ∨ child.isDirty = true
  · obtain ⟨child', hset, hrep, hhash, -⟩ := setHash_refines h hc hne
    refine ⟨child', ?_, hrep⟩
    rw [validHash, hok, except_ok_bind, if_pos hvalid, hset, except_ok_bind]
    simp [hhash]
  refine ⟨child, ?_, h⟩
  obtain ⟨x, hx⟩ := Option.ne_none_iff_exists'.1 (fun heq => hvalid (.inl heq))
  have hcached := ((represents_iff_held (h.ne_nil hne)).1 h).1.cached hne hx
  rw [validHash, hok, except_ok_bind, if_neg hvalid, except_pure, except_ok_bind]
  simp [hx, hcached]

/-- The outcome of `getCollapsed`: the node itself stands for the tree as before, and the collapsed
node is what the tree is stored as. -/
structure Collapses (hasher : Hasher Digit) (db : Database) (n n' collapsed : Node) (t : PTree) :
    Prop where
  held : Held hasher db n' t
  getHash : n'.getHash = n.getHash
  isDirty : n'.isDirty = n.isDirty
  encoded : ∃ c, content hasher t = some c ∧ collapsed.getEncodedNode = .ok c
  collapsed : StoredBelow hasher db t → Held hasher db collapsed t ∧
    collapsed.getHash = n.getHash ∧ collapsed.isDirty = n.isDirty

theorem getCollapsed_held (h : Held hasher db n t) (ht : t.Canonical) (hne : t ≠ .nil) :
    ∃ n' collapsed, n.getCollapsed hasher = .ok (n', collapsed) ∧
      Collapses hasher db n n' collapsed t := by
  have hok := h.isEmptyOrNil ht hne
  cases n with
  | nil => exact absurd h hne
  | leaf key value hash dirty =>
    refine ⟨_, _, rfl, h, rfl, rfl, ?_, fun _ => ⟨h, rfl, rfl⟩⟩
    obtain ⟨v, rfl, rfl, -⟩ := h
    exact ⟨_, rfl, by simp [getEncodedNode, hok]⟩
  | extension key enc child hash dirty =>
    obtain ⟨c, rfl, hslot, hmarks⟩ := id h
    have hc := Patricia.Tree.ne_nil_of_isBranch ht.2.1
    by_cases hnil : child = .nil
    · subst hnil
      obtain ⟨rfl, hstored⟩ := hslot.1 rfl
      refine ⟨_, _, ?_, h, rfl, rfl, ⟨_, rfl, ?_⟩, fun _ => ⟨h, rfl, rfl⟩⟩
      · simp [Node.getCollapsed, hok]
      · simp [getEncodedNode, hok]
    · obtain ⟨child', hvalid, hrep⟩ := validHash_refines (hslot.2 hnil) ht.2.2 hc
      refine ⟨.extension key enc child' hash dirty, .extension key (merkle hasher c) .nil hash dirty,
        ?_, ?_, rfl, rfl, ⟨_, rfl, ?_⟩, fun hstored => ⟨?_, rfl, rfl⟩⟩
      · simp [Node.getCollapsed, hok, hnil, hvalid]
      · exact represents_extension.2 ⟨Slot.of_represents hrep (hrep.ne_nil hc), hmarks⟩
      · simp [getEncodedNode, isEmptyOrNil, merkle_eq_nil, hc]
      · refine represents_extension.2 ⟨.of_stored hstored, ?_⟩
        exact ⟨fun x hx => ⟨(hmarks.cached x hx).1, rfl⟩, hmarks.clean⟩
  | branch enc children hash dirty =>
    obtain ⟨ts, rfl, hslots, hmarks⟩ := id h
    have hstep : ∀ i, ∃ child', (if (children i).isNil = true then pure (Node.nil, enc i)
          else (children i).validHash hasher) = .ok (child', merkle hasher (ts i)) ∧
        Slot hasher db (enc i) child' (ts i) := by
      intro i
      by_cases hnil : children i = .nil
      · obtain ⟨henc, hstored⟩ := (hslots i).1 hnil
        exact ⟨.nil, by simp [hnil, henc], fun _ => ⟨henc, hstored⟩,
          fun h => absurd rfl h⟩
      · have hchild := (hslots i).2 hnil
        have hc := hchild.tree_ne_nil hnil
        obtain ⟨child', hvalid, hrep⟩ := validHash_refines hchild (ht.2 i) hc
        exact ⟨child', by simp [hnil, hvalid], Slot.of_represents hrep (hrep.ne_nil hc)⟩
    choose children' hresults hslots' using hstep
    refine ⟨.branch enc children' hash dirty,
      .branch (fun i => merkle hasher (ts i)) (fun _ => .nil) hash dirty, ?_, ?_, rfl, rfl,
      ⟨_, rfl, ?_⟩, fun hstored => ⟨?_, rfl, rfl⟩⟩
    · rw [Node.getCollapsed, hok, except_ok_bind, forEach_eq_ok hresults, except_ok_bind]
      rfl
    · exact represents_branch.2 ⟨hslots', hmarks⟩
    · obtain ⟨i, hi⟩ := Canonical.exists_child ht
      have hpos : childPositions (fun i => merkle hasher (ts i)) (fun _ => .nil) ≠ [] := by
        refine List.ne_nil_of_mem (a := i) ?_
        simp [childPositions, merkle_eq_nil, hi]
      simp [getEncodedNode, isEmptyOrNil, hpos]
    · refine represents_branch.2 ⟨fun i => .of_stored (hstored i), ?_⟩
      exact ⟨fun x hx => ⟨(hmarks.cached x hx).1, fun _ => rfl⟩, hmarks.clean⟩

/-! ## Committing -/

theorem encodeNodeAndCommitToDB_held (h : Held hasher db n t) (ht : t.Canonical) (hne : t ≠ .nil) :
    ∃ n' c, content hasher t = some c ∧
      n.encodeNodeAndCommitToDB hasher db = .ok (n', db.insert (merkle hasher t) c) ∧
      Held hasher db n' t ∧ n'.getHash = some (merkle hasher t) ∧ n'.isDirty = n.isDirty := by
  obtain ⟨m, hm, hheld, hhash, hdirty⟩ : ∃ m,
      (if n.getHash.isSome = true then pure n else n.setHash hasher) = .ok m ∧
        Held hasher db m t ∧ m.getHash = some (merkle hasher t) ∧ m.isDirty = n.isDirty := by
    by_cases hsome : n.getHash.isSome = true
    · rw [if_pos hsome]
      exact Hashes.of_cached h hne hsome
    · rw [if_neg hsome]
      exact setHash_held h ht hne
  obtain ⟨n', collapsed, hget, hcol⟩ := getCollapsed_held hheld ht hne
  obtain ⟨c, hc, hencoded⟩ := hcol.encoded
  refine ⟨n', c, hc, ?_, hcol.held, hcol.getHash.trans hhash, hcol.isDirty.trans hdirty⟩
  rw [encodeNodeAndCommitToDB, hm, except_ok_bind, hget, except_ok_bind]
  simp only [hencoded, except_ok_bind, hcol.getHash, hhash]
  rfl

theorem collapseAt_held (h : Held hasher db n t) (ht : t.Canonical) (hne : t ≠ .nil)
    (hbelow : StoredBelow hasher db t) (level : UInt8) (max : Nat) :
    ∃ n', n.collapseAt hasher level max = .ok n' ∧ Held hasher db n' t ∧
      n'.getHash = n.getHash ∧ n'.isDirty = n.isDirty := by
  unfold collapseAt
  split
  · obtain ⟨n', collapsed, hget, hcol⟩ := getCollapsed_held h ht hne
    exact ⟨collapsed, by simp [hget], hcol.collapsed hbelow⟩
  · exact ⟨n, rfl, h, rfl, rfl⟩

/-- A step on the database: nothing stored is lost, and what is new has its own hash. -/
def Grows (hasher : Hasher Digit) (db db' : Database) : Prop :=
  Extends db db' ∧ (WellKeyed hasher db → WellKeyed hasher db')

theorem Grows.refl (db : Database) : Grows hasher db db := ⟨Extends.refl db, id⟩

theorem Grows.trans {db' : Database} (h : Grows hasher db db') (h' : Grows hasher db' db'') :
    Grows hasher db db'' :=
  ⟨h.1.trans h'.1, fun hdb => h'.2 (h.2 hdb)⟩

/-- The outcome of a commit. -/
def Commits (hasher : Hasher Digit) (db : Database)
    (result : Except NodeError (Node × Database)) (t : PTree) : Prop :=
  ∃ n db', result = .ok (n, db') ∧ Grows hasher db db' ∧ Represents hasher db' n t ∧
    n.isDirty = false

theorem Commits.of_clean (h : Represents hasher db n t) (hclean : n.isDirty = false) :
    Commits hasher db (.ok (n, db)) t :=
  ⟨n, db, rfl, Grows.refl db, h, hclean⟩

theorem Commits.after {db' : Database} {result : Except NodeError (Node × Database)}
    (hgrows : Grows hasher db db') (h : Commits hasher db' result t) :
    Commits hasher db result t := by
  obtain ⟨n, db'', hresult, hgrows', hrep, hclean⟩ := h
  exact ⟨n, db'', hresult, hgrows.trans hgrows', hrep, hclean⟩

/-- Writing a node whose flag has been cleared, after its subtrees. -/
theorem writes (h : Held hasher db n t) (hclean : n.isDirty = false) (ht : t.Canonical)
    (hne : t ≠ .nil) (hdb : WellKeyed hasher db) (hbelow : StoredBelow hasher db t) :
    ∃ n' db', n.encodeNodeAndCommitToDB hasher db = .ok (n', db') ∧ Grows hasher db db' ∧
      Represents hasher db' n' t ∧ n'.isDirty = false := by
  obtain ⟨n', c, hc, hwrite, hheld, hhash, hdirty⟩ := encodeNodeAndCommitToDB_held h ht hne
  obtain ⟨hkeyed, hext, hstored⟩ := write hc hdb hbelow
  refine ⟨n', _, hwrite, ⟨hext, fun _ => hkeyed⟩, ?_, hdirty.trans hclean⟩
  exact (represents_iff_held (hheld.ne_nil hne)).2
    ⟨hheld.mono hext, fun _ => ⟨by simp [hhash], hstored⟩⟩

theorem collapses (h : Represents hasher db n t) (hclean : n.isDirty = false) (ht : t.Canonical)
    (hne : t ≠ .nil) (level : UInt8) (max : Nat) :
    ∃ n', n.collapseAt hasher level max = .ok n' ∧ Represents hasher db n' t ∧
      n'.isDirty = false := by
  obtain ⟨hheld, hmarks⟩ := (represents_iff_held (h.ne_nil hne)).1 h
  obtain ⟨hhash, hstored⟩ := hmarks hclean
  obtain ⟨n', hcollapse, hheld', hhash', hdirty⟩ :=
    collapseAt_held hheld ht hne hstored.below level max
  refine ⟨n', hcollapse, ?_, hdirty.trans hclean⟩
  exact (represents_iff_held (hheld'.ne_nil hne)).2
    ⟨hheld', fun _ => ⟨by rw [hhash', hhash], hstored⟩⟩

theorem writes_collapses (h : Held hasher db n t) (hclean : n.isDirty = false) (ht : t.Canonical)
    (hne : t ≠ .nil) (hdb : WellKeyed hasher db) (hbelow : StoredBelow hasher db t) (level : UInt8)
    (max : Nat) :
    Commits hasher db
      ((do
        let n ← n.encodeNodeAndCommitToDB hasher
        n.collapseAt hasher level max : StateT Database (Except NodeError) Node) db) t := by
  obtain ⟨n', db', hwrite, hgrows, hrep, hclean'⟩ := writes h hclean ht hne hdb hbelow
  obtain ⟨n'', hcollapse, hrep', hclean''⟩ := collapses hrep hclean' ht hne level max
  refine ⟨n'', db', ?_, hgrows, hrep', hclean''⟩
  simp only [bind, StateT.bind, Except.bind, hwrite, liftM, monadLift, MonadLift.monadLift,
    StateT.lift, hcollapse]
  rfl

variable {β : Type}

variable {f : α → StateT Database (Except NodeError) β} {a : α}

theorem state_bind_ok {m : StateT Database (Except NodeError) α} {db' : Database}
    (h : m db = .ok (a, db')) : (m >>= f) db = f a db' := by
  simp only [bind, StateT.bind, Except.bind, h]

theorem state_lift_ok {x : Except NodeError α} (h : x = .ok a) :
    ((liftM x : StateT Database (Except NodeError) α) >>= f) db = f a db := by
  rw [h]
  rfl

variable {enc : Bytes}

theorem Slot.commits (h : Slot hasher db enc child c) {m : StateT Database (Except NodeError) Node}
    (hm : child ≠ .nil → c ≠ .nil → Represents hasher db child c → Commits hasher db (m db) c) :
    ∃ child' db', (if child.isNil = true then pure .nil else m) db = .ok (child', db') ∧
      Grows hasher db db' ∧ Slot hasher db' enc child' c ∧ Stored hasher db' c := by
  by_cases hnil : child = .nil
  · obtain ⟨henc, hstored⟩ := h.1 hnil
    refine ⟨.nil, db, by simp [hnil]; rfl, Grows.refl db, ?_, hstored⟩
    exact ⟨fun _ => ⟨henc, hstored⟩, fun h => absurd rfl h⟩
  have hchild := h.2 hnil
  have hc := hchild.tree_ne_nil hnil
  obtain ⟨child', db', hcommit, hgrows, hrep, hclean⟩ := hm hnil hc hchild
  have hne' := hrep.ne_nil hc
  refine ⟨child', db', by simp [hnil, hcommit], hgrows, Slot.of_represents hrep hne', ?_⟩
  exact (((represents_iff_held hne').1 hrep).2 hclean).2

theorem Slot.mono {db' : Database} (hext : Extends db db') (h : Slot hasher db enc child c) :
    Slot hasher db' enc child c :=
  ⟨fun hn => ⟨(h.1 hn).1, (h.1 hn).2.mono hext⟩, fun hn => (h.2 hn).mono hext⟩

theorem commit_refines (h : Represents hasher db n t) (ht : t.Canonical) (hne : t ≠ .nil)
    (hdb : WellKeyed hasher db) (max : Nat) (level : UInt8) :
    Commits hasher db (n.commit hasher max level db) t := by
  induction n generalizing t db level with
  | nil => exact absurd h hne
  | leaf key value hash dirty =>
    have hok := h.isEmptyOrNil ht hne
    rw [Node.commit, state_lift_ok hok]
    cases dirty with
    | false => exact Commits.of_clean h rfl
    | true =>
      have hbelow : StoredBelow hasher db t := by
        obtain ⟨v, -, rfl, -⟩ := h
        trivial
      exact writes (n := .leaf key value hash false) h rfl ht hne hdb hbelow
  | extension key enc child hash dirty ih =>
    have hok := h.isEmptyOrNil ht hne
    rw [Node.commit, state_lift_ok hok]
    cases dirty with
    | false => exact Commits.of_clean h rfl
    | true =>
      obtain ⟨c, rfl, hslot, hmarks⟩ := id h
      have hc := Patricia.Tree.ne_nil_of_isBranch ht.2.1
      obtain ⟨child', db', hcommit, hgrows, hslot', hstored⟩ : ∃ child' db',
          (if child.isNil = true then pure .nil else child.commit hasher max (level + 1) :
            StateT Database (Except NodeError) Node) db = .ok (child', db') ∧
          Grows hasher db db' ∧ Slot hasher db' enc child' c ∧ Stored hasher db' c :=
        Slot.commits hslot fun _ _ hchild => ih hchild ht.2.2 hc hdb (level + 1)
      rw [if_pos rfl, state_bind_ok hcommit]
      refine Commits.after hgrows (writes_collapses ?_ rfl ht hne (hgrows.2 hdb) hstored _ _)
      exact represents_extension.2 ⟨hslot', hmarks.mono hgrows.1⟩
  | branch enc children hash dirty ih =>
    have hok := h.isEmptyOrNil ht hne
    rw [Node.commit, state_lift_ok hok]
    cases dirty with
    | false => exact Commits.of_clean h rfl
    | true =>
      obtain ⟨ts, rfl, hslots, hmarks⟩ := id h
      -- each child is committed to a database that holds what the children before it wrote
      obtain ⟨children', db', hcommit, hgrows, hdone⟩ := forEach_state
        (f := fun i => if (children i).isNil = true then pure .nil
          else (children i).commit hasher max (level + 1))
        (R := Grows hasher)
        (Q := fun i child db => Slot hasher db (enc i) child (ts i) ∧ Stored hasher db (ts i))
        Grows.refl Grows.trans
        (fun hdone hgrows => ⟨hdone.1.mono hgrows.1, hdone.2.mono hgrows.1⟩)
        (fun i db' hgrows => Slot.commits (Slot.mono hgrows.1 (hslots i))
          fun _ hc hchild => ih i hchild (ht.2 i) hc (hgrows.2 hdb) (level + 1))
      rw [if_pos rfl, state_bind_ok hcommit]
      refine Commits.after hgrows
        (writes_collapses ?_ rfl ht hne (hgrows.2 hdb) (fun i => (hdone i).2) _ _)
      exact represents_branch.2 ⟨fun i => (hdone i).1, hmarks.mono hgrows.1⟩

end KleverGo.Trie
