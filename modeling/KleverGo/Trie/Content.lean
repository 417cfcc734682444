import KleverGo.Core.Bytes

/-!
# What a trie node is stored as

Reference model of the three marshalled node types of `data/trie` (`CollapsedLn`, `CollapsedEn`,
`CollapsedBn`) and of the hash a node is stored under.  A child is the hash of its own marshalled
form, and an empty byte string where there is none.

The marshalizer is a bijection here, so a database maps a hash to a `Collapsed` node and not to its
bytes.  `Hasher` is what the code asks of `hasher.Compute`: no two nodes have one hash, and no node
has the hash that stands for the empty trie.  `plainHasher` shows that such hashers exist.
-/

namespace KleverGo.Trie

def EmptyTrieHash : Bytes := List.replicate 32 0

def emptyTrie (root : Bytes) : Bool := root = [] || root = EmptyTrieHash

inductive TrieError where
  | ErrEmptyLeafNode
  | ErrEmptyExtensionNode
  | ErrEmptyBranchNode
  | ErrNodeNotFound
  | ErrWrongTypeAssertion
  | ErrNilContext
  | ErrContextClosing
  | ErrTimeIsOut
  deriving DecidableEq, Repr

instance neZero_children : NeZero 17 := ⟨by decide⟩

/-- A marshalled node; `δ` is the type of the digits of a key. -/
inductive Collapsed (δ : Type) where
  | leaf (key : List δ) (value : Bytes)
  | extension (key : List δ) (encodedChild : Bytes)
  | branch (encodedChildren : Fin 17 → Bytes)
  deriving DecidableEq

namespace Collapsed

variable {δ : Type}

/-- The hash of the child at a position, empty where the node has none.  The only child of an
extension node is at position 0. -/
def encodedChild : Collapsed δ → Fin 17 → Bytes
  | leaf _ _, _ => []
  | extension _ child, i => if i = 0 then child else []
  | branch children, i => children i

/-- `isEmptyOrNil` of a node that has been decoded: `nil` fields come back as empty ones. -/
def isEmptyOrNil : Collapsed δ → Option TrieError
  | leaf _ value => if value = [] then some .ErrEmptyLeafNode else none
  | extension _ child => if child = [] then some .ErrEmptyExtensionNode else none
  | branch children =>
    if ∀ i, children i = [] then some .ErrEmptyBranchNode else none

end Collapsed

/-- `hasher.Compute` of the marshalled form of a node. -/
structure Hasher (δ : Type) where
  compute : Collapsed δ → Bytes
  injective : Function.Injective compute
  compute_ne_nil : ∀ n, compute n ≠ []
  compute_ne_emptyTrieHash : ∀ n, compute n ≠ EmptyTrieHash

/-- Every entry is stored under its own hash. -/
def WellKeyed {δ : Type} (hasher : Hasher δ) (db : Finmap fun _ : Bytes => Collapsed δ) : Prop :=
  ∀ h n, db.lookup h = some n → hasher.compute n = h

/-! ## A hasher that writes the node out -/

/-- A byte string that marks its own end. -/
def delimited : Bytes → Bytes
  | [] => [0]
  | b :: rest => 1 :: b :: delimited rest

theorem delimited_append_inj {a b x y : Bytes} (h : delimited a ++ x = delimited b ++ y) :
    a = b ∧ x = y := by
  induction a generalizing b with
  | nil =>
    cases b with
    | nil => simpa [delimited] using h
    | cons c b => simp [delimited] at h
  | cons c a ih =>
    cases b with
    | nil => simp [delimited] at h
    | cons d b =>
      simp only [delimited, List.cons_append, List.cons.injEq, true_and] at h
      obtain ⟨rfl, h⟩ := h
      exact ⟨by rw [(ih h).1], (ih h).2⟩

theorem flatMap_delimited_inj {xs ys : List Bytes} (hlen : xs.length = ys.length)
    (h : xs.flatMap delimited = ys.flatMap delimited) : xs = ys := by
  induction xs generalizing ys with
  | nil => exact (List.eq_nil_of_length_eq_zero hlen.symm).symm
  | cons x xs ih =>
    cases ys with
    | nil => simp at hlen
    | cons y ys =>
      rw [List.flatMap_cons, List.flatMap_cons] at h
      obtain ⟨rfl, hrest⟩ := delimited_append_inj h
      rw [ih (Nat.succ.inj hlen) hrest]

variable {δ : Type}

/-- A node written out, after a byte that names its type. -/
def written (digit : δ → UInt8) : Collapsed δ → Bytes
  | .leaf key value => 1 :: (delimited (key.map digit) ++ delimited value)
  | .extension key child => 2 :: (delimited (key.map digit) ++ delimited child)
  | .branch children => 3 :: (List.ofFn children).flatMap delimited

theorem written_injective {digit : δ → UInt8} (hdigit : Function.Injective digit) :
    Function.Injective (written digit) := by
  -- the fields after the type byte are delimited, so each can be read back
  have fields : ∀ {k k' : List δ} {v v' : Bytes},
      delimited (k.map digit) ++ delimited v = delimited (k'.map digit) ++ delimited v' →
        k = k' ∧ v = v' := by
    intro k k' v v' h
    obtain ⟨hkey, hvalue⟩ := delimited_append_inj h
    refine ⟨List.map_injective_iff.2 hdigit hkey, ?_⟩
    exact (delimited_append_inj (congrArg (· ++ []) hvalue)).1
  intro a b h
  cases a <;> cases b <;> simp only [written, List.cons.injEq, true_and] at h <;>
    try exact absurd h.1 (by decide)
  case leaf.leaf => obtain ⟨rfl, rfl⟩ := fields h; rfl
  case extension.extension => obtain ⟨rfl, rfl⟩ := fields h; rfl
  case branch.branch f g =>
    rw [List.ofFn_injective (flatMap_delimited_inj (by simp) h)]

/-- The hasher that returns the written node itself. -/
def plainHasher (digit : δ → UInt8) (hdigit : Function.Injective digit) : Hasher δ where
  compute := written digit
  injective := written_injective hdigit
  compute_ne_nil n := by cases n <;> simp [written]
  compute_ne_emptyTrieHash n := by
    cases n <;> simp [written, EmptyTrieHash, List.replicate_succ]

end KleverGo.Trie
