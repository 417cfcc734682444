import Mathlib

/-!
# Patricia trees

Trees over keys that are lists of digits: a leaf holds the rest of its key, an extension a part that
all keys below share, and a branch one subtree for each digit.  `lookup` gives a tree its meaning.
A `Canonical` tree has no extension without a key or above anything but a branch, and no branch with
fewer than two subtrees.

Principal results:

* `lookup_insert`, `lookup_delete` — insertion and deletion act on the map;
* `Canonical.insert`, `Canonical.delete` — and keep the shape;
* `Canonical.ext` — **canonical trees with the same map are equal**.

An inserted key must not be a proper beginning of a key in the tree, nor the other way round
(`Apart`).
-/

set_option autoImplicit false

namespace KleverGo.Patricia

open List

/-- The length of the common beginning of two lists. -/
def prefixLen {α : Type} [DecidableEq α] : List α → List α → Nat
  | a :: k, b :: l => if a = b then prefixLen k l + 1 else 0
  | _, _ => 0

section Prefixes

variable {α : Type} [DecidableEq α]

theorem take_prefixLen (k l : List α) : k.take (prefixLen k l) = l.take (prefixLen k l) := by
  induction k generalizing l with
  | nil => simp [prefixLen]
  | cons a k ih =>
    cases l with
    | nil => simp [prefixLen]
    | cons b l =>
      by_cases h : a = b
      · simp [prefixLen, h, ih l]
      · simp [prefixLen, h]

variable {k l : List α}

/-- Where both lists go on after their common beginning, they differ. -/
theorem drop_prefixLen_ne {ks ls : List α} {a b : α} (hk : k.drop (prefixLen k l) = a :: ks)
    (hl : l.drop (prefixLen k l) = b :: ls) : a ≠ b := by
  induction k generalizing l with
  | nil => simp at hk
  | cons c k ih =>
    cases l with
    | nil => simp at hl
    | cons d l =>
      by_cases h : c = d
      · simp only [prefixLen, h, if_true, drop_succ_cons] at hk hl
        exact ih hk hl
      · simp only [prefixLen, h, if_false, drop_zero, List.cons.injEq] at hk hl
        rw [← hk.1, ← hl.1]
        exact h

theorem prefixLen_append (k l : List α) : prefixLen k (k ++ l) = k.length := by
  induction k with
  | nil => cases l <;> simp [prefixLen]
  | cons a k ih => simp [prefixLen, ih]

theorem prefixLen_comm (k l : List α) : prefixLen k l = prefixLen l k := by
  induction k generalizing l with
  | nil => cases l <;> simp [prefixLen]
  | cons a k ih =>
    cases l with
    | nil => simp [prefixLen]
    | cons b l =>
      by_cases h : a = b
      · simp [prefixLen, h, ih l]
      · simp [prefixLen, h, Ne.symm h]

/-- A list that ends with the common beginning is a beginning of the other. -/
theorem isPrefix_of_drop_prefixLen (h : k.drop (prefixLen k l) = []) : k <+: l := by
  have hk : k = k.take (prefixLen k l) := by
    conv_lhs => rw [← take_append_drop (prefixLen k l) k, h, append_nil]
  rw [hk, take_prefixLen]
  exact take_prefix _ _

theorem prefixLen_lt (h : ¬ k <+: l) : prefixLen l k < k.length := by
  by_contra hle
  rw [prefixLen_comm] at hle
  exact h (isPrefix_of_drop_prefixLen (drop_eq_nil_of_le (Nat.le_of_not_lt hle)))

end Prefixes

inductive Tree (n : Nat) (ν : Type) where
  | nil
  | leaf (key : List (Fin n)) (value : ν)
  | extension (key : List (Fin n)) (child : Tree n ν)
  | branch (children : Fin n → Tree n ν)

namespace Tree

variable {n : Nat} {ν : Type}

def isNil : Tree n ν → Bool
  | nil => true
  | _ => false

def isBranch : Tree n ν → Bool
  | branch _ => true
  | _ => false

variable {t : Tree n ν}

theorem isNil_iff : t.isNil = true ↔ t = nil := by
  cases t <;> simp [isNil]

def lookup : Tree n ν → List (Fin n) → Option ν
  | nil, _ => none
  | leaf k v, key => if key = k then some v else none
  | extension k c, key => if k <+: key then c.lookup (key.drop k.length) else none
  | branch _, [] => none
  | branch cs, a :: key => (cs a).lookup key

/-! ## Building trees -/

/-- A shared part of the key above a tree. -/
def wrap (key : List (Fin n)) (t : Tree n ν) : Tree n ν :=
  if key = [] then t else extension key t

/-- A shared part of the key, drawn into the key the tree begins with. -/
def prepend (key : List (Fin n)) : Tree n ν → Tree n ν
  | leaf k v => leaf (key ++ k) v
  | extension k c => extension (key ++ k) c
  | t => extension key t

def fork (a : Fin n) (x : Tree n ν) (b : Fin n) (y : Tree n ν) : Tree n ν :=
  branch (Function.update (Function.update (fun _ => nil) a x) b y)

/-- The digits with a subtree. -/
def positions (children : Fin n → Tree n ν) : List (Fin n) :=
  (finRange n).filter fun a => !(children a).isNil

/-- A branch, unless it has one subtree only. -/
def reduce (children : Fin n → Tree n ν) : Tree n ν :=
  match positions children with
  | [a] => prepend [a] (children a)
  | _ => branch children

def insert : Tree n ν → List (Fin n) → ν → Tree n ν
  | nil, key, v => leaf key v
  | leaf k w, key, v =>
    if key = k then leaf k v
    else
      match k.drop (prefixLen key k), key.drop (prefixLen key k) with
      | a :: ks, b :: rest => wrap (k.take (prefixLen key k)) (fork a (leaf ks w) b (leaf rest v))
      | _, _ => leaf k w
  | extension k c, key, v =>
    match k.drop (prefixLen key k), key.drop (prefixLen key k) with
    | [], rest => extension k (c.insert rest v)
    | a :: ks, b :: rest => wrap (k.take (prefixLen key k)) (fork a (wrap ks c) b (leaf rest v))
    | _ :: _, [] => extension k c
  | branch cs, [], _ => branch cs
  | branch cs, a :: rest, v => branch (Function.update cs a ((cs a).insert rest v))

def delete : Tree n ν → List (Fin n) → Tree n ν
  | nil, _ => nil
  | leaf k w, key => if key = k then nil else leaf k w
  | extension k c, key =>
    if k <+: key then prepend k (c.delete (key.drop k.length)) else extension k c
  | branch cs, [] => branch cs
  | branch cs, a :: rest => reduce (Function.update cs a ((cs a).delete rest))

/-! ## Lookups in built trees -/

theorem lookup_extension_append (k rest : List (Fin n)) (c : Tree n ν) :
    (extension k c).lookup (k ++ rest) = c.lookup rest := by
  simp [lookup]

theorem lookup_wrap (k key : List (Fin n)) (t : Tree n ν) :
    (wrap k t).lookup key = (extension k t).lookup key := by
  unfold wrap
  split
  · next h => simp [h, lookup]
  · rfl

theorem lookup_prepend (k key : List (Fin n)) (t : Tree n ν) :
    (prepend k t).lookup key = (extension k t).lookup key := by
  by_cases h : k <+: key
  · obtain ⟨rest, rfl⟩ := h
    rw [lookup_extension_append]
    cases t with
    | nil => simp [prepend, lookup]
    | leaf k' v => simp [prepend, lookup]
    | extension k' c => simp [prepend, lookup, prefix_append_right_inj, ← drop_drop]
    | branch cs => simp [prepend, lookup]
  · have hnone : (extension k t).lookup key = none := by simp [lookup, h]
    rw [hnone]
    cases t with
    | nil => simp [prepend, lookup]
    | leaf k' v =>
      have hne : key ≠ k ++ k' := fun heq => h ⟨k', heq.symm⟩
      simp [prepend, lookup, hne]
    | extension k' c =>
      have hne : ¬ k ++ k' <+: key := fun hp => h ((prefix_append k k').trans hp)
      simp [prepend, lookup, hne]
    | branch cs => simp [prepend, lookup, h]

variable {a b : Fin n}

theorem lookup_fork (hab : a ≠ b) (x y : Tree n ν) (key : List (Fin n)) :
    (fork a x b y).lookup key =
      match key with
      | [] => none
      | d :: rest => if d = b then y.lookup rest else if d = a then x.lookup rest else none := by
  cases key with
  | nil => rfl
  | cons d rest =>
    simp only [fork, lookup, Function.update_apply]
    by_cases hb : d = b
    · simp [hb]
    · by_cases ha : d = a <;> simp [ha, hb, hab, lookup]

variable {children : Fin n → Tree n ν}

theorem mem_positions : a ∈ positions children ↔ children a ≠ nil := by
  simp [positions, ← isNil_iff]

theorem lookup_reduce (children : Fin n → Tree n ν) (key : List (Fin n)) :
    (reduce children).lookup key = (branch children).lookup key := by
  unfold reduce
  split
  · next a hpos =>
    have honly : ∀ b, b ≠ a → children b = nil := by
      intro b hb
      by_contra hne
      have := mem_positions.2 hne
      rw [hpos, mem_singleton] at this
      exact hb this
    rw [lookup_prepend]
    cases key with
    | nil => simp [lookup]
    | cons b rest =>
      by_cases hb : b = a
      · simp [lookup, hb]
      · simp [lookup, honly b hb, Ne.symm hb]
  · rfl

/-! ## Insertion and deletion act on the map -/

/-- Neither the key nor another key of the tree is a beginning of the other. -/
def Apart (t : Tree n ν) (key : List (Fin n)) : Prop :=
  ∀ k v, t.lookup k = some v → k ≠ key → ¬ k <+: key ∧ ¬ key <+: k

variable {k key : List (Fin n)}

theorem Apart.leaf {v : ν} (h : Apart (leaf k v) key) (hne : key ≠ k) : ¬ k <+: key ∧ ¬ key <+: k :=
  h k v (by simp [lookup]) (Ne.symm hne)

variable {rest : List (Fin n)} {c : Tree n ν}

theorem Apart.extension (h : Apart (extension k c) (k ++ rest)) : Apart c rest := by
  intro l v hl hne
  have hfar := h (k ++ l) v (by rw [lookup_extension_append, hl]) (by simpa using hne)
  simpa [prefix_append_right_inj] using hfar

variable {cs : Fin n → Tree n ν}

theorem Apart.branch (h : Apart (branch cs) (a :: rest)) : Apart (cs a) rest := by
  intro l v hl hne
  have hfar := h (a :: l) v (by simpa [lookup] using hl) (by simpa using hne)
  simpa using hfar

/-- Two keys of which neither is a beginning of the other part at different digits. -/
theorem exists_parting (h : ¬ k <+: key) (h' : ¬ key <+: k) :
    ∃ m a ks b rest, k.drop (prefixLen key k) = a :: ks ∧ key.drop (prefixLen key k) = b :: rest ∧
      k.take (prefixLen key k) = m ∧ k = m ++ a :: ks ∧ key = m ++ b :: rest ∧ a ≠ b := by
  cases hk : k.drop (prefixLen key k) with
  | nil =>
    rw [prefixLen_comm] at hk
    exact absurd (isPrefix_of_drop_prefixLen hk) h
  | cons a ks =>
    cases hkey : key.drop (prefixLen key k) with
    | nil => exact absurd (isPrefix_of_drop_prefixLen hkey) h'
    | cons b rest =>
      refine ⟨_, a, ks, b, rest, rfl, rfl, rfl, ?_, ?_, (drop_prefixLen_ne hkey hk).symm⟩
      · rw [← hk, take_append_drop]
      · rw [← take_prefixLen, ← hkey, take_append_drop]

theorem lookup_wrap_fork (hab : a ≠ b) (m rest : List (Fin n)) (x : Tree n ν) (v : ν)
    (key : List (Fin n)) :
    (wrap m (fork a x b (leaf rest v))).lookup key =
      if key = m ++ b :: rest then some v else (extension (m ++ [a]) x).lookup key := by
  rw [lookup_wrap]
  by_cases hm : m <+: key
  · obtain ⟨l, rfl⟩ := hm
    rw [lookup_extension_append, lookup_fork hab]
    have hold : (extension (m ++ [a]) x).lookup (m ++ l) = (extension [a] x).lookup l := by
      simp only [lookup, prefix_append_right_inj, length_append, ← drop_drop, drop_left]
    rw [hold]
    cases l with
    | nil => simp [lookup]
    | cons d l =>
      by_cases hb : d = b
      · subst hb
        simp [lookup, hab]
      · by_cases ha : d = a
        · subst ha
          simp [lookup, hb]
        · simp [lookup, ha, hb, Ne.symm ha]
  · have hne : key ≠ m ++ b :: rest := fun h => hm ⟨_, h.symm⟩
    have hne' : ¬ m ++ [a] <+: key := fun h => hm ((prefix_append _ _).trans h)
    simp [lookup, hm, hne, hne']

theorem lookup_split_extension (hab : a ≠ b) (m ks rest : List (Fin n)) (c : Tree n ν) (v : ν)
    (key : List (Fin n)) :
    (wrap m (fork a (wrap ks c) b (leaf rest v))).lookup key =
      if key = m ++ b :: rest then some v else (extension (m ++ a :: ks) c).lookup key := by
  have hwrap : (extension (m ++ [a]) (wrap ks c)).lookup key =
      (extension (m ++ [a]) (extension ks c)).lookup key := by
    conv_lhs => unfold lookup
    conv_rhs => unfold lookup
    rw [lookup_wrap]
  rw [lookup_wrap_fork hab, hwrap, ← lookup_prepend]
  simp [prepend]

theorem lookup_delete (t : Tree n ν) (key k : List (Fin n)) :
    (t.delete key).lookup k = if k = key then none else t.lookup k := by
  induction t generalizing key k with
  | nil => simp [delete, lookup]
  | leaf l w =>
    by_cases h : key = l
    · subst h
      by_cases hk : k = key <;> simp [delete, lookup, hk]
    · by_cases hk : k = key
      · subst hk
        simp [delete, lookup, h]
      · simp [delete, h, hk]
  | extension l c ih =>
    by_cases h : l <+: key
    · obtain ⟨rest, rfl⟩ := h
      have hstep : (extension l c).delete (l ++ rest) = prepend l (c.delete rest) := by
        simp [delete]
      rw [hstep, lookup_prepend]
      by_cases hk : l <+: k
      · obtain ⟨rest', rfl⟩ := hk
        simp [lookup_extension_append, ih]
      · have hne : k ≠ l ++ rest := fun heq => hk ⟨_, heq.symm⟩
        simp [lookup, hk, hne]
    · by_cases hk : k = key
      · subst hk
        simp [delete, lookup, h]
      · simp [delete, h, hk]
  | branch cs ih =>
    cases key with
    | nil => cases k <;> simp [delete, lookup]
    | cons a rest =>
      rw [delete, lookup_reduce]
      cases k with
      | nil => simp [lookup]
      | cons b k =>
        by_cases hb : b = a
        · subst hb
          simp [lookup, ih]
        · simp [lookup, hb]

/-! ## Canonical trees -/

def Canonical : Tree n ν → Prop
  | nil => True
  | leaf _ _ => True
  | extension k c => k ≠ [] ∧ c.isBranch = true ∧ c.Canonical
  | branch cs => (∃ a b, a ≠ b ∧ cs a ≠ nil ∧ cs b ≠ nil) ∧ ∀ a, (cs a).Canonical

theorem ne_nil_of_isBranch (h : t.isBranch = true) : t ≠ nil := by
  rintro rfl
  cases h

theorem Canonical.exists_lookup (h : t.Canonical) (hne : t ≠ nil) : ∃ k v, t.lookup k = some v := by
  induction t with
  | nil => exact absurd rfl hne
  | leaf l w => exact ⟨l, w, by simp [lookup]⟩
  | extension l c ih =>
    obtain ⟨-, hc, hcanon⟩ := h
    obtain ⟨k, v, hk⟩ := ih hcanon (ne_nil_of_isBranch hc)
    exact ⟨l ++ k, v, by rw [lookup_extension_append, hk]⟩
  | branch cs ih =>
    obtain ⟨⟨a, -, -, ha, -⟩, hcanon⟩ := h
    obtain ⟨k, v, hk⟩ := ih a (hcanon a) ha
    exact ⟨a :: k, v, by simpa [lookup] using hk⟩

theorem Canonical.exists_lookup_cons (h : (branch cs).Canonical) :
    ∃ a k v, (branch cs).lookup (a :: k) = some v := by
  obtain ⟨k, v, hk⟩ := h.exists_lookup (by simp)
  cases k with
  | nil => simp [lookup] at hk
  | cons a k => exact ⟨a, k, v, hk⟩

theorem Canonical.ne_nil_of_apart (h : (branch cs).Canonical) (hfar : Apart (branch cs) key) :
    key ≠ [] := by
  rintro rfl
  obtain ⟨a, k, v, hk⟩ := h.exists_lookup_cons
  exact (hfar _ v hk (by simp)).2 nil_prefix

/-- A key that ends within an extension is a beginning of the keys below it. -/
theorem Canonical.not_isPrefix_of_apart (h : (extension k c).Canonical)
    (hfar : Apart (extension k c) key) : ¬ key <+: k := by
  rintro ⟨rest, rfl⟩
  obtain ⟨-, hc, hcanon⟩ := h
  cases c with
  | nil | leaf | extension => cases hc
  | branch cs =>
    obtain ⟨a, l, v, hl⟩ := hcanon.exists_lookup_cons
    have hbelow := hfar (key ++ rest ++ a :: l) v (by rw [lookup_extension_append, hl])
      (by simp [append_assoc])
    exact hbelow.2 (by simp [append_assoc])

theorem insert_extension_append (k rest : List (Fin n)) (c : Tree n ν) (v : ν) :
    (extension k c).insert (k ++ rest) v = extension k (c.insert rest v) := by
  simp [insert, prefixLen_comm (k ++ rest), prefixLen_append]

/-- What insertion does to an extension: go below it, or split it. -/
theorem Canonical.insert_extension (h : (extension k c).Canonical)
    (hfar : Apart (extension k c) key) (v : ν) :
    (∃ rest, key = k ++ rest ∧
      (extension k c).insert key v = extension k (c.insert rest v)) ∨
    ∃ m a ks b rest, k = m ++ a :: ks ∧ key = m ++ b :: rest ∧ a ≠ b ∧
      (extension k c).insert key v = wrap m (fork a (wrap ks c) b (leaf rest v)) := by
  have hnot := h.not_isPrefix_of_apart hfar
  by_cases hk : k <+: key
  · obtain ⟨rest, rfl⟩ := hk
    exact .inl ⟨rest, rfl, insert_extension_append k rest c v⟩
  · obtain ⟨m, a, ks, b, rest, hdk, hdkey, hm, hsplit, hsplit', hab⟩ := exists_parting hk hnot
    refine .inr ⟨m, a, ks, b, rest, hsplit, hsplit', hab, ?_⟩
    simp only [insert, hdk, hdkey, hm]

variable {w : ν}

theorem insert_leaf (hne : key ≠ k) (hfar : Apart (leaf k w) key) (v : ν) :
    ∃ m a ks b rest, k = m ++ a :: ks ∧ key = m ++ b :: rest ∧ a ≠ b ∧
      (leaf k w).insert key v = wrap m (fork a (leaf ks w) b (leaf rest v)) := by
  obtain ⟨hk, hkey⟩ := hfar.leaf hne
  obtain ⟨m, a, ks, b, rest, hdk, hdkey, hm, hsplit, hsplit', hab⟩ := exists_parting hk hkey
  refine ⟨m, a, ks, b, rest, hsplit, hsplit', hab, ?_⟩
  simp only [insert, hne, if_false, hdk, hdkey, hm]

theorem lookup_insert (h : t.Canonical) (hfar : Apart t key) (v : ν) (k : List (Fin n)) :
    (t.insert key v).lookup k = if k = key then some v else t.lookup k := by
  induction t generalizing key k with
  | nil => simp [insert, lookup]
  | leaf l w =>
    by_cases hl : key = l
    · subst hl
      by_cases hk : k = key <;> simp [insert, lookup, hk]
    · obtain ⟨m, a, ks, b, rest, rfl, rfl, hab, heq⟩ := insert_leaf hl hfar v
      rw [heq, lookup_wrap_fork hab, ← lookup_prepend]
      simp [prepend]
  | extension l c ih =>
    obtain ⟨rest, rfl, heq⟩ | ⟨m, a, ks, b, rest, rfl, rfl, hab, heq⟩ := h.insert_extension hfar v
    · rw [heq]
      by_cases hk : l <+: k
      · obtain ⟨k, rfl⟩ := hk
        simp [lookup_extension_append, ih h.2.2 hfar.extension]
      · have hne : k ≠ l ++ rest := fun heq => hk ⟨_, heq.symm⟩
        simp [lookup, hk, hne]
    · rw [heq, lookup_split_extension hab]
  | branch cs ih =>
    cases key with
    | nil => exact absurd rfl (h.ne_nil_of_apart hfar)
    | cons a rest =>
      rw [insert]
      cases k with
      | nil => simp [lookup]
      | cons b k =>
        by_cases hb : b = a
        · subst hb
          simp [lookup, ih b (h.2 b) hfar.branch]
        · simp [lookup, hb]

/-! ## The shape is kept -/

theorem Canonical.wrap (h : t.Canonical) (hbranch : t.isBranch = true) (k : List (Fin n)) :
    (wrap k t).Canonical := by
  unfold Tree.wrap
  split
  · exact h
  · next hk => exact ⟨hk, hbranch, h⟩

theorem wrap_ne_nil (h : t ≠ nil) (k : List (Fin n)) : wrap k t ≠ nil := by
  unfold wrap
  split
  · exact h
  · simp

theorem canonical_fork (hab : a ≠ b) {x y : Tree n ν} (hx : x.Canonical) (hy : y.Canonical)
    (hxne : x ≠ nil) (hyne : y ≠ nil) : (fork a x b y).Canonical := by
  refine ⟨⟨a, b, hab, by simpa [hab] using hxne, by simpa using hyne⟩, ?_⟩
  intro d
  by_cases hb : d = b
  · simpa [hb] using hy
  · by_cases ha : d = a
    · subst ha
      simpa [hb] using hx
    · simp [ha, hb, Canonical]

theorem Canonical.prepend (h : t.Canonical) (hne : t ≠ nil) (hk : k ≠ []) :
    (prepend k t).Canonical := by
  cases t with
  | nil => exact absurd rfl hne
  | leaf => trivial
  | extension l c => exact ⟨by simp [hk], h.2⟩
  | branch cs => exact ⟨hk, rfl, h⟩

theorem prepend_ne_nil (k : List (Fin n)) (t : Tree n ν) : prepend k t ≠ nil := by
  cases t <;> simp [prepend]

theorem reduce_ne_nil (children : Fin n → Tree n ν) : reduce children ≠ nil := by
  unfold reduce
  split
  · exact prepend_ne_nil _ _
  · simp

theorem canonical_reduce (h : ∀ a, (children a).Canonical) (hsome : ∃ a, children a ≠ nil) :
    (reduce children).Canonical := by
  unfold reduce
  split
  · next a hpos =>
    have ha : children a ≠ nil := mem_positions.1 (by simp [hpos])
    exact (h a).prepend ha (by simp)
  next hmany =>
  refine ⟨?_, h⟩
  have hnodup : (positions children).Nodup := (nodup_finRange n).filter _
  match hpos : positions children with
  | [] =>
    obtain ⟨a, ha⟩ := hsome
    simpa [hpos] using mem_positions.2 ha
  | [a] => exact absurd hpos (hmany a)
  | a :: b :: rest =>
    rw [hpos] at hnodup
    refine ⟨a, b, ?_, mem_positions.1 (by simp [hpos]), mem_positions.1 (by simp [hpos])⟩
    rintro rfl
    simp at hnodup

theorem Canonical.reduce_eq (h : (branch cs).Canonical) : reduce cs = branch cs := by
  obtain ⟨⟨a, b, hab, ha, hb⟩, -⟩ := h
  unfold reduce
  split
  · next d hpos =>
    have ha' := mem_positions.2 ha
    have hb' := mem_positions.2 hb
    rw [hpos, mem_singleton] at ha' hb'
    exact absurd (ha'.trans hb'.symm) hab
  · rfl

theorem Canonical.update_delete (h : (branch cs).Canonical) (d : Fin n) (rest : List (Fin n))
    (hchild : ((cs d).delete rest).Canonical) :
    (∀ e, (Function.update cs d ((cs d).delete rest) e).Canonical) ∧
      ∃ e, Function.update cs d ((cs d).delete rest) e ≠ nil := by
  constructor
  · intro e
    by_cases he : e = d
    · subst he
      simpa using hchild
    · simpa [he] using h.2 e
  · -- one of the two subtrees is not the one deleted from
    obtain ⟨⟨a, b, hab, ha, hb⟩, -⟩ := h
    by_cases hd : a = d
    · exact ⟨b, by simpa [Ne.symm (hd ▸ hab)] using hb⟩
    · exact ⟨a, by simpa [hd] using ha⟩

theorem isBranch_insert (h : t.isBranch = true) (key : List (Fin n)) (v : ν) :
    (t.insert key v).isBranch = true := by
  cases t with
  | nil | leaf | extension => cases h
  | branch cs => cases key <;> rfl

theorem Canonical.insert (h : t.Canonical) (hfar : Apart t key) (v : ν) :
    (t.insert key v).Canonical ∧ t.insert key v ≠ nil := by
  induction t generalizing key with
  | nil => simp [Tree.insert, Canonical]
  | leaf l w =>
    by_cases hl : key = l
    · simp [Tree.insert, hl, Canonical]
    obtain ⟨m, a, ks, b, rest, -, -, hab, heq⟩ := insert_leaf hl hfar v
    rw [heq]
    have hfork : (fork a (leaf ks w) b (leaf rest v)).Canonical :=
      canonical_fork hab (by simp [Canonical]) (by simp [Canonical]) (by simp) (by simp)
    exact ⟨hfork.wrap rfl m,
      wrap_ne_nil (by simp [fork]) m⟩
  | extension l c ih =>
    obtain ⟨rest, rfl, heq⟩ | ⟨m, a, ks, b, rest, -, -, hab, heq⟩ := h.insert_extension hfar v
    · rw [heq]
      exact ⟨⟨h.1, isBranch_insert h.2.1 rest v, (ih h.2.2 hfar.extension).1⟩, by simp⟩
    rw [heq]
    have hold := h.2.2.wrap h.2.1 ks
    have hne := wrap_ne_nil (ne_nil_of_isBranch h.2.1) ks
    have hfork : (fork a (Tree.wrap ks c) b (leaf rest v)).Canonical :=
      canonical_fork hab hold (by simp [Canonical]) hne (by simp)
    exact ⟨hfork.wrap rfl m,
      wrap_ne_nil (by simp [fork]) m⟩
  | branch cs ih =>
    cases key with
    | nil => exact absurd rfl (h.ne_nil_of_apart hfar)
    | cons d rest =>
      obtain ⟨hchild, hne⟩ := ih d (h.2 d) hfar.branch
      obtain ⟨⟨a, b, hab, ha, hb⟩, hcanon⟩ := h
      refine ⟨⟨⟨a, b, hab, ?_, ?_⟩, ?_⟩, by simp [Tree.insert]⟩
      · by_cases hd : a = d
        · subst hd; simpa using hne
        · simpa [hd] using ha
      · by_cases hd : b = d
        · subst hd; simpa using hne
        · simpa [hd] using hb
      · intro e
        by_cases he : e = d
        · subst he; simpa using hchild
        · simpa [he] using hcanon e

theorem Canonical.delete (h : t.Canonical) (key : List (Fin n)) :
    (t.delete key).Canonical ∧ (t.isBranch = true → t.delete key ≠ nil) := by
  induction t generalizing key with
  | nil => simp [Tree.delete, Canonical, isBranch]
  | leaf l w =>
    by_cases hl : key = l <;> simp [Tree.delete, hl, Canonical, isBranch]
  | extension l c ih =>
    refine ⟨?_, by simp [isBranch]⟩
    by_cases hl : l <+: key
    · obtain ⟨rest, rfl⟩ := hl
      obtain ⟨hcanon, hne⟩ := ih h.2.2 rest
      simpa [Tree.delete] using hcanon.prepend (hne h.2.1) h.1
    · simpa [Tree.delete, hl] using h
  | branch cs ih =>
    cases key with
    | nil => exact ⟨h, fun _ => by simp [Tree.delete]⟩
    | cons d rest =>
      obtain ⟨hcanon, hsome⟩ := h.update_delete d rest (ih d (h.2 d) rest).1
      exact ⟨canonical_reduce hcanon hsome, fun _ => reduce_ne_nil _⟩

/-! ## Equal maps have equal trees -/

/-- A beginning shared by all keys. -/
def Shares (t : Tree n ν) (k : List (Fin n)) : Prop :=
  ∀ key v, t.lookup key = some v → k <+: key

theorem Canonical.shares_branch (h : (branch cs).Canonical) (hk : Shares (branch cs) k) :
    k = [] := by
  obtain ⟨⟨a, b, hab, ha, hb⟩, hcanon⟩ := h
  obtain ⟨l, v, hl⟩ := (hcanon a).exists_lookup ha
  obtain ⟨l', v', hl'⟩ := (hcanon b).exists_lookup hb
  have hka := hk (a :: l) v hl
  have hkb := hk (b :: l') v' hl'
  cases k with
  | nil => rfl
  | cons d k =>
    rw [cons_prefix_cons] at hka hkb
    exact absurd (hka.1.symm.trans hkb.1) hab

theorem lookup_nil_of_isBranch (h : c.isBranch = true) : c.lookup [] = none := by
  cases c with
  | nil | leaf | extension => cases h
  | branch cs => rfl

variable {l : List (Fin n)}

theorem Canonical.shares_extension (h : (extension k c).Canonical) (hl : Shares (extension k c) l) :
    l <+: k := by
  obtain ⟨-, hbranch, hc⟩ := h
  by_cases hkl : k <+: l
  · obtain ⟨rest, rfl⟩ := hkl
    have hrest : Shares c rest := by
      intro key v hkey
      have hshared := hl (k ++ key) v (by rw [lookup_extension_append, hkey])
      simpa [prefix_append_right_inj] using hshared
    cases c with
    | nil | leaf | extension => cases hbranch
    | branch cs => simp [hc.shares_branch hrest]
  · obtain ⟨key, v, hkey⟩ := hc.exists_lookup (ne_nil_of_isBranch hbranch)
    have hshared := hl (k ++ key) v (by rw [lookup_extension_append, hkey])
    have hboth := prefix_or_prefix_of_prefix hshared (prefix_append k key)
    exact hboth.resolve_right hkl

theorem shares_of_lookup_extension (h : ∀ key, t.lookup key = (extension k c).lookup key) :
    Shares t k := by
  intro key v hkey
  rw [h] at hkey
  by_contra hk
  simp [lookup, hk] at hkey

theorem Canonical.eq_nil (h : t.Canonical) (hnone : ∀ k, t.lookup k = none) : t = nil := by
  by_contra hne
  obtain ⟨k, v, hk⟩ := h.exists_lookup hne
  simp [hnone] at hk

theorem Canonical.eq_leaf (h : t.Canonical) (hleaf : ∀ k, t.lookup k = (leaf l w).lookup k) :
    t = leaf l w := by
  have hown : t.lookup l = some w := by simp [hleaf, lookup]
  have hshares : Shares t l := by
    intro key v hkey
    by_cases hkl : key = l
    · rw [hkl]
    · simp [hleaf, lookup, hkl] at hkey
  cases t with
  | nil => simp [lookup] at hown
  | leaf k v =>
    by_cases hk : l = k
    · simpa [lookup, hk] using hown
    · simp [lookup, hk] at hown
  | extension k c =>
    -- the one key would end where the branch below begins
    obtain ⟨hkl, hbelow⟩ : k <+: l ∧ c.lookup (l.drop k.length) = some w := by
      simpa [lookup] using hown
    obtain rfl : l = k :=
      (h.shares_extension hshares).eq_of_length_le hkl.length_le
    rw [drop_length, lookup_nil_of_isBranch h.2.1] at hbelow
    cases hbelow
  | branch cs =>
    rw [h.shares_branch hshares] at hown
    simp [lookup] at hown

/-- **Canonical trees with the same map are equal.** -/
theorem Canonical.ext {u : Tree n ν} (ht : t.Canonical) (hu : u.Canonical)
    (h : ∀ k, t.lookup k = u.lookup k) : t = u := by
  induction t generalizing u with
  | nil => exact (hu.eq_nil fun k => (h k).symm).symm
  | leaf l w => exact (hu.eq_leaf fun k => (h k).symm).symm
  | extension k c ih =>
    cases u with
    | nil => exact ht.eq_nil h
    | leaf l w => exact ht.eq_leaf h
    | extension l d =>
      have hlk := ht.shares_extension (shares_of_lookup_extension h)
      have hkl := hu.shares_extension (shares_of_lookup_extension fun key => (h key).symm)
      obtain rfl : k = l := hkl.eq_of_length_le hlk.length_le
      rw [ih ht.2.2 hu.2.2]
      intro rest
      simpa [lookup_extension_append] using h (k ++ rest)
    | branch cs =>
      exact absurd (hu.shares_branch (shares_of_lookup_extension fun key => (h key).symm)) ht.1
  | branch cs ih =>
    cases u with
    | nil => exact ht.eq_nil h
    | leaf l w => exact ht.eq_leaf h
    | extension l d => exact absurd (ht.shares_branch (shares_of_lookup_extension h)) hu.1
    | branch ds =>
      congr 1
      funext a
      exact ih a (ht.2 a) (hu.2 a) fun rest => by simpa [lookup] using h (a :: rest)

end Tree

end KleverGo.Patricia
