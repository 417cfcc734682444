import KleverGo.Trie.PatriciaTrie

/-!
# Merkle proofs

Reference model of `VerifyProof` of `data/trie/patriciaMerkleTrie.go`.  A proof is a list of byte
strings that anyone may have written, so nodes are byte strings here; `Wire` is what the code asks of
the marshalizer and the hasher.

* `Decides.node` — one node: nothing else has the hash that is asked for;
* `verifyFrom_decides` — the lists that are accepted, by induction on the tree;
* `verifyProof_decides` — **no list proves what the trie does not hold**, after any run.
-/

namespace KleverGo.Trie

open List

/-- Nodes as bytes: `encode` is the marshalled node with the byte of its type, `decode` is
`decodeNode`. -/
structure Wire where
  encode : Collapsed Digit → Bytes
  decode : Bytes → Except NodeError (Collapsed Digit)
  hash : Bytes → Bytes
  decode_encode : ∀ n, decode (encode n) = .ok n
  hash_injective : Function.Injective hash
  hash_ne_nil : ∀ b, hash b ≠ []
  hash_ne_emptyTrieHash : ∀ b, hash b ≠ EmptyTrieHash

def Wire.hasher (wire : Wire) : Hasher Digit where
  compute n := wire.hash (wire.encode n)
  injective a b h := by
    have hdecode := congrArg wire.decode (wire.hash_injective h)
    rw [wire.decode_encode, wire.decode_encode] at hdecode
    exact Except.ok.inj hdecode
  compute_ne_nil _ := wire.hash_ne_nil _
  compute_ne_emptyTrieHash _ := wire.hash_ne_emptyTrieHash _

/-- `getNextHashAndKey`: whether the proof ends here, and else what the next node has to be. -/
def Collapsed.getNextHashAndKey : Collapsed Digit → List Digit → Bool × Bytes × List Digit
  | .leaf k _, key => (key = k, [], [])
  | .extension k child, key =>
    if key ≠ [] ∧ k <+: key then (false, child, key.drop k.length) else (false, [], [])
  | .branch _, [] => (false, [], [])
  | .branch children, pos :: rest => (false, children pos, rest)

variable (wire : Wire)

/-- The loop of `VerifyProof`; an entry of the list may be a `nil` slice. -/
def verifyFrom : Bytes → List Digit → List (Option Bytes) → Except NodeError Bool
  | _, _, [] => pure false
  | _, _, none :: _ => pure false
  | wantHash, key, some encodedNode :: proof =>
    if wantHash ≠ wire.hash encodedNode then pure false
    else do
      let n ← wire.decode encodedNode
      let (proofVerified, wantHash, key) := n.getNextHashAndKey key
      if proofVerified then pure true else verifyFrom wantHash key proof

def PatriciaTrie.verifyProof (tr : PatriciaTrie) (key : Bytes) (proof : List (Option Bytes)) :
    Except NodeError Bool := do
  let (wantHash, _) ← tr.rootHash wire.hasher
  verifyFrom wire wantHash (keyBytesToHex key) proof

/-- Exactly the lists are accepted that begin with the nodes on the way to a leaf with the value,
and none if there is no value. -/
def Decides (verify : List (Option Bytes) → Except NodeError Bool) : Option Bytes → Prop
  | none => ∀ proof, verify proof = .ok false
  | some value => ∃ nodes k, ∀ proof, verify proof =
      .ok (((nodes ++ [wire.encode (.leaf k value)]).map some).isPrefixOf proof)

variable {wire} {key : List Digit} {t : PTree}

theorem decides_of_hash_ne {wantHash : Bytes} (h : ∀ b, wire.hash b ≠ wantHash)
    (key : List Digit) : Decides wire (verifyFrom wire wantHash key) none := by
  intro proof
  cases proof with
  | nil => rfl
  | cons node proof =>
    cases node with
    | none => rfl
    | some b => simp [verifyFrom, (h b).symm]

theorem verifyFrom_compute (c : Collapsed Digit) (key : List Digit) (proof : List (Option Bytes)) :
    verifyFrom wire (wire.hasher.compute c) key proof =
      if proof.head? = some (some (wire.encode c)) then
        if (c.getNextHashAndKey key).1 then .ok true
        else verifyFrom wire (c.getNextHashAndKey key).2.1 (c.getNextHashAndKey key).2.2 proof.tail
      else .ok false := by
  cases proof with
  | nil => rfl
  | cons node proof =>
    cases node with
    | none => rfl
    | some b =>
      by_cases hb : b = wire.encode c
      · simp [verifyFrom, Wire.hasher, hb, wire.decode_encode]
      · simp [verifyFrom, Wire.hasher, hb, wire.hash_injective.ne (Ne.symm hb)]

theorem head_isPrefixOf (node : Bytes) (nodes proof : List (Option Bytes)) :
    (if proof.head? = some (some node) then .ok (nodes.isPrefixOf proof.tail) else .ok false) =
      (Except.ok ((some node :: nodes).isPrefixOf proof) : Except NodeError Bool) := by
  cases proof with
  | nil => rfl
  | cons b proof =>
    by_cases hb : b = some node
    · simp [hb]
    · simp [hb, isPrefixOf_cons_cons, Ne.symm hb]

/-- One node that is not the last. -/
theorem Decides.node {c : Collapsed Digit} {value : Option Bytes}
    (hmore : (c.getNextHashAndKey key).1 = false)
    (h : Decides wire (verifyFrom wire (c.getNextHashAndKey key).2.1 (c.getNextHashAndKey key).2.2)
      value) :
    Decides wire (verifyFrom wire (wire.hasher.compute c) key) value := by
  cases value with
  | none =>
    intro proof
    simp [verifyFrom_compute, hmore, show ∀ _, _ from h]
  | some value =>
    obtain ⟨nodes, k, h⟩ := h
    refine ⟨wire.encode c :: nodes, k, fun proof => ?_⟩
    simpa [verifyFrom_compute, hmore, h] using head_isPrefixOf _ _ proof

/-- A node leads to the place where a lookup goes on. -/
theorem verifyFrom_decides (ht : t.Canonical) (key : List Digit) :
    Decides wire (verifyFrom wire (merkle wire.hasher t) key)
      ((t.lookup key).map Subtype.val) := by
  have hlost := decides_of_hash_ne wire.hash_ne_nil
  induction t generalizing key with
  | nil => exact hlost key
  | leaf k v =>
    by_cases hk : key = k
    · rw [Patricia.Tree.lookup, if_pos hk]
      refine ⟨[], k, fun proof => ?_⟩
      rw [merkle, verifyFrom_compute]
      simpa [Collapsed.getNextHashAndKey, hk] using head_isPrefixOf _ [] proof
    · rw [Patricia.Tree.lookup, if_neg hk]
      exact .node (by simp [Collapsed.getNextHashAndKey, hk]) (hlost [])
  | extension k c ih =>
    by_cases hk : k <+: key
    · have hne : key ≠ [] := fun h => ht.1 (prefix_nil.1 (h ▸ hk))
      have hnext : ∀ child, (Collapsed.extension k child).getNextHashAndKey key =
          (false, child, key.drop k.length) := by
        simp [Collapsed.getNextHashAndKey, hne, hk]
      rw [Patricia.Tree.lookup, if_pos hk]
      refine .node (by rw [hnext]) ?_
      rw [hnext]
      exact ih ht.2.2 (key.drop k.length)
    · rw [Patricia.Tree.lookup, if_neg hk]
      refine .node ?_ ?_ <;> simp [Collapsed.getNextHashAndKey, hk, hlost]
  | branch ts ih =>
    cases key with
    | nil => exact .node rfl (hlost [])
    | cons pos rest => exact .node rfl (ih pos (ht.2 pos) rest)

/-- Nodes written out, and a byte before them as their hash. -/
noncomputable def plainWire : Wire where
  encode := digitHasher.compute
  decode b := (Function.partialInv digitHasher.compute b).elim (.error .nilNode) .ok
  hash b := 1 :: b
  decode_encode n := by rw [Function.partialInv_left digitHasher.injective]; rfl
  hash_injective := cons_injective
  hash_ne_nil := by simp
  hash_ne_emptyTrieHash := by simp [EmptyTrieHash, replicate_succ]

/-- **No list proves what the trie does not hold.**  After every run, `VerifyProof` of a key accepts
exactly the lists that begin with one path of nodes, which ends in the leaf with the value of the
key, and no list if there is no value. -/
theorem verifyProof_decides (wire : Wire) {db : Database} (hdb : WellKeyed wire.hasher db)
    {max : Nat} (hmax : 1 ≤ max) (ops : List Op) :
    ∃ tr s, newTrie db max = .ok tr ∧ Session.run wire.hasher ⟨tr, []⟩ ops = .ok s ∧
      ∀ key, Decides wire (s.trie.verifyProof wire key) (leaves ops key) := by
  obtain ⟨tr, s, hnew, hrun, t, ht, hrep⟩ := run_new hdb hmax ops
  refine ⟨tr, s, hnew, hrun, fun key => ?_⟩
  obtain ⟨tr', hroot, -⟩ := rootHash_becomes hrep ht.canonical
  have hverify : s.trie.verifyProof wire key =
      verifyFrom wire (rootOf wire.hasher t) (keyBytesToHex key) := by
    funext proof
    rw [PatriciaTrie.verifyProof, hroot]
    rfl
  rw [hverify, ← ht.value]
  by_cases hne : t = .nil
  · subst hne
    exact decides_of_hash_ne wire.hash_ne_emptyTrieHash _
  · rw [rootOf_of_ne_nil hne]
    exact verifyFrom_decides ht.canonical _

theorem verifyProof_decides_twoKeys :
    (∃ tr s, newTrie ∅ 1 = .ok tr ∧ Session.run plainWire.hasher ⟨tr, []⟩ twoKeys = .ok s ∧
      ∀ key, Decides plainWire (s.trie.verifyProof plainWire key) (leaves twoKeys key)) ∧
    leaves twoKeys [0x21] = some [3] :=
  ⟨verifyProof_decides plainWire (fun h n hn => by simp at hn) (Nat.le_refl 1) twoKeys, by decide⟩

end KleverGo.Trie
