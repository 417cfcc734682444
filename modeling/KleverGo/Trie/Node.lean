import KleverGo.Lib.PatriciaTree
import KleverGo.Trie.Content

/-!
# Trie nodes in memory

Reference model of `leafNode`, `extensionNode` and `branchNode` of `data/trie`: reading, insertion
and deletion with children loaded from the database on the way, hashing, and `commit`, which writes
dirty nodes to the database and drops the children of those at the level that is no longer kept in
memory.

The digits of a key are `Digit`s, so `childPosOutOfRange` never holds.  A method call on a `nil`
interface and an index out of range, where the code panics, are errors here.  The three recursive
operations take the number of nodes they may go down through; the callers give one more than the
key has digits.

Nodes are changed in place.  An operation therefore returns the node it was called on as it is
afterwards wherever the code returns the node itself.
-/

namespace KleverGo.Trie

open KleverGo.Patricia (prefixLen)

/-- A digit of a hex key: a nibble, or `hexTerminator`. -/
abbrev Digit := Fin 17

abbrev Database := Finmap fun _ : Bytes => Collapsed Digit

inductive NodeError where
  | node (err : TrieError)
  | ErrValueTooShort
  | ErrKeyNotFound
  | ErrHashNotFound
  | ErrInvalidLevelValue
  | nilNode
  | indexOutOfRange
  | tooDeep
  deriving DecidableEq, Repr

inductive Node where
  | nil
  | leaf (key : List Digit) (value : Bytes) (hash : Option Bytes) (dirty : Bool)
  | extension (key : List Digit) (encodedChild : Bytes) (child : Node) (hash : Option Bytes)
    (dirty : Bool)
  | branch (encodedChildren : Digit → Bytes) (children : Digit → Node) (hash : Option Bytes)
    (dirty : Bool)

/-- A loop over positions that stops at the first error. -/
def forEach {m : Type → Type} [Monad m] {α : Type} : {n : Nat} → (Fin n → m α) → m (Fin n → α)
  | 0, _ => pure Fin.elim0
  | _ + 1, f => do
    let a ← f 0
    let rest ← forEach fun i => f i.succ
    pure (Fin.cons a rest)

namespace Node

def isNil : Node → Bool
  | nil => true
  | _ => false

def newLeafNode (key : List Digit) (value : Bytes) : Node := leaf key value none true

def newExtensionNode (key : List Digit) (child : Node) : Node := extension key [] child none true

/-- `newBranchNode` with two children. -/
def newBranchNode (a : Digit) (x : Node) (b : Digit) (y : Node) : Node :=
  branch (fun _ => []) (Function.update (Function.update (fun _ => nil) a x) b y) none true

def getHash : Node → Option Bytes
  | nil => none
  | leaf _ _ hash _ => hash
  | extension _ _ _ hash _ => hash
  | branch _ _ hash _ => hash

/-- `setGivenHash`, and the assignments of a computed hash. -/
def setGivenHash (h : Bytes) : Node → Node
  | nil => nil
  | leaf key value _ dirty => leaf key value (some h) dirty
  | extension key enc child _ dirty => extension key enc child (some h) dirty
  | branch enc children _ dirty => branch enc children (some h) dirty

def isDirty : Node → Bool
  | nil => false
  | leaf _ _ _ dirty => dirty
  | extension _ _ _ _ dirty => dirty
  | branch _ _ _ dirty => dirty

def setDirty (dirty : Bool) : Node → Node
  | nil => nil
  | leaf key value hash _ => leaf key value hash dirty
  | extension key enc child hash _ => extension key enc child hash dirty
  | branch enc children hash _ => branch enc children hash dirty

/-- `bn.children[pos]`; an extension node has its only child at every position. -/
def childAt : Node → Digit → Node
  | extension _ _ child _ _, _ => child
  | branch _ children _ _, pos => children pos
  | _, _ => nil

def setChild (n : Node) (pos : Digit) (child : Node) : Node :=
  match n with
  | extension key enc _ hash dirty => extension key enc child hash dirty
  | branch enc children hash dirty => branch enc (Function.update children pos child) hash dirty
  | n => n

/-- The positions at which a branch node has a child, loaded or collapsed. -/
def childPositions (encodedChildren : Digit → Bytes) (children : Digit → Node) : List Digit :=
  (List.finRange 17).filter fun i => !((children i).isNil && encodedChildren i = [])

def isEmptyOrNil : Node → Except NodeError Unit
  | nil => .error .nilNode
  | leaf _ value _ _ => if value = [] then .error (.node .ErrEmptyLeafNode) else .ok ()
  | extension _ enc child _ _ =>
    if child.isNil && enc = [] then .error (.node .ErrEmptyExtensionNode) else .ok ()
  | branch enc children _ _ =>
    if childPositions enc children = [] then .error (.node .ErrEmptyBranchNode) else .ok ()

/-! ## Loading children -/

def decodeNode : Collapsed Digit → Node
  | .leaf key value => leaf key value none false
  | .extension key enc => extension key enc nil none false
  | .branch enc => branch enc (fun _ => nil) none false

def getNodeFromDBAndDecode (db : Database) (hash : Bytes) : Except NodeError Node :=
  match db.lookup hash with
  | none => .error .ErrKeyNotFound
  | some content => .ok (decodeNode content)

def isPosCollapsed : Node → Digit → Bool
  | extension _ enc child _ _, _ => child.isNil && enc ≠ []
  | branch enc children _ _, pos => (children pos).isNil && enc pos ≠ []
  | _, _ => false

/-- `EncodedChildren[pos]` -/
def encodedChildAt : Node → Digit → Bytes
  | extension _ enc _ _ _, _ => enc
  | branch enc _ _ _, pos => enc pos
  | _, _ => []

/-- `resolveIfCollapsed`, with `resolveCollapsed`. -/
def resolveIfCollapsed (db : Database) (n : Node) (pos : Digit) : Except NodeError Node := do
  n.isEmptyOrNil
  if n.isPosCollapsed pos then
    let child ← getNodeFromDBAndDecode db (n.encodedChildAt pos)
    pure (n.setChild pos (child.setGivenHash (n.encodedChildAt pos)))
  else pure n

/-! ## Reading -/

/-- `tryGet`: the value, and the node with what was loaded on the way. -/
def tryGet (db : Database) : Nat → Node → List Digit → Except NodeError (Option Bytes × Node)
  | 0, _, _ => .error .tooDeep
  | _ + 1, nil, _ => .error .nilNode
  | _ + 1, n@(leaf k value _ _), key => do
    n.isEmptyOrNil
    pure (if key = k then some value else none, n)
  | depth + 1, n@(extension k _ _ _ _), key => do
    n.isEmptyOrNil
    if k <+: key then
      let en ← n.resolveIfCollapsed db 0
      let (value, child) ← tryGet db depth (en.childAt 0) (key.drop k.length)
      pure (value, en.setChild 0 child)
    else pure (none, n)
  | depth + 1, n@(branch _ _ _ _), key => do
    n.isEmptyOrNil
    match key with
    | [] => pure (none, n)
    | pos :: rest =>
      let bn ← n.resolveIfCollapsed db pos
      if (bn.childAt pos).isNil then pure (none, bn)
      else
        let (value, child) ← tryGet db depth (bn.childAt pos) rest
        pure (value, bn.setChild pos child)

/-! ## Insertion -/

/-- `append(oldHashes, n.hash)` of a node that is not dirty. -/
def oldHash (n : Node) : List Bytes := if n.isDirty then [] else [n.getHash.getD []]

/-- `dirty = true; hash = nil` -/
def touch : Node → Node
  | nil => nil
  | leaf key value _ _ => leaf key value none true
  | extension key enc child _ _ => extension key enc child none true
  | branch enc children _ _ => branch enc children none true

/-- The node under the part of a key that two keys share. -/
def underShared (shared : List Digit) (bn : Node) : Node :=
  if shared = [] then bn else newExtensionNode shared bn

/-- `insert` of a new leaf node: whether anything changed, the new node, and the hashes of the nodes
that were changed. -/
def insert (db : Database) :
    Nat → Node → List Digit → Bytes → Except NodeError (Bool × Node × List Bytes)
  | 0, _, _, _ => .error .tooDeep
  | _ + 1, nil, _, _ => .error .nilNode
  | _ + 1, n@(leaf k old _ _), key, value => do
    n.isEmptyOrNil
    if key = k then
      if old = value then pure (false, n, [])
      else pure (true, leaf k value none true, n.oldHash)
    else
      match k.drop (prefixLen key k), key.drop (prefixLen key k) with
      | oldChildPos :: ks, newChildPos :: rest =>
        let bn := newBranchNode oldChildPos (newLeafNode ks old) newChildPos (newLeafNode rest value)
        pure (true, underShared (k.take (prefixLen key k)) bn, n.oldHash)
      | _, _ => .error .indexOutOfRange
  | depth + 1, n@(extension k _ _ _ _), key, value => do
    n.isEmptyOrNil
    let en ← n.resolveIfCollapsed db 0
    if prefixLen key k = k.length then
      let (dirty, newNode, oldHashes) ← insert db depth (en.childAt 0)
        (key.drop (prefixLen key k)) value
      if dirty then pure (true, newExtensionNode k newNode, oldHashes ++ n.oldHash)
      else pure (false, en.setChild 0 newNode, [])
    else
      match k.drop (prefixLen key k), key.drop (prefixLen key k) with
      | oldChildPos :: ks, newChildPos :: rest =>
        let bn := newBranchNode oldChildPos (underShared ks (en.childAt 0)) newChildPos
          (newLeafNode rest value)
        pure (true, underShared (k.take (prefixLen key k)) bn, n.oldHash)
      | _, _ => .error .indexOutOfRange
  | depth + 1, n@(branch _ _ _ _), key, value => do
    n.isEmptyOrNil
    match key with
    | [] => .error .ErrValueTooShort
    | pos :: rest =>
      let bn ← n.resolveIfCollapsed db pos
      if (bn.childAt pos).isNil then
        pure (true, (bn.setChild pos (newLeafNode rest value)).touch, n.oldHash)
      else
        let (dirty, newNode, oldHashes) ← insert db depth (bn.childAt pos) rest value
        if dirty then pure (true, (bn.setChild pos newNode).touch, oldHashes ++ n.oldHash)
        else pure (false, bn.setChild pos newNode, [])

/-! ## Deletion -/

/-- `reduceNode`: the node under one more digit, and whether the node itself is given up. -/
def reduceNode (pos : Digit) : Node → Except NodeError (Node × Bool)
  | nil => .error .nilNode
  | leaf key value _ _ => .ok (newLeafNode (pos :: key) value, true)
  | extension key _ child _ _ => .ok (newExtensionNode (pos :: key) child, true)
  | bn => .ok (newExtensionNode [pos] bn, false)

def reduceNodeIfNecessary (db : Database) (enc : Digit → Bytes) (children : Digit → Node)
    (hash : Option Bytes) (dirty : Bool) (oldHashes : List Bytes) :
    Except NodeError (Bool × Node × List Bytes) :=
  match childPositions enc children with
  | [pos] => do
    let bn ← (branch enc children hash dirty).resolveIfCollapsed db pos
    let child ← (bn.childAt pos).resolveIfCollapsed db pos
    let (newNode, newChildHash) ← child.reduceNode pos
    pure (true, newNode, if newChildHash then oldHashes ++ child.oldHash else oldHashes)
  | _ => pure (true, branch enc children hash true, oldHashes)

/-- The node an extension node becomes over the new node below it. -/
def mergeInto (key : List Digit) : Node → Node
  | leaf k value _ _ => newLeafNode (key ++ k) value
  | extension k _ child _ _ => newExtensionNode (key ++ k) child
  | n => newExtensionNode key n

/-- `delete`: whether anything changed, the new node, and the hashes of the nodes that were changed
or given up. -/
def delete (db : Database) :
    Nat → Node → List Digit → Except NodeError (Bool × Node × List Bytes)
  | 0, _, _ => .error .tooDeep
  | _ + 1, nil, _ => .error .nilNode
  | _ + 1, n@(leaf k _ _ _), key =>
    if key = k then .ok (true, nil, n.oldHash) else .ok (false, n, [])
  | depth + 1, n@(extension k _ _ _ _), key => do
    n.isEmptyOrNil
    if key = [] then .error .ErrValueTooShort
    else if prefixLen key k < k.length then pure (false, n, [])
    else
      let en ← n.resolveIfCollapsed db 0
      let (dirty, newNode, oldHashes) ← delete db depth (en.childAt 0) (key.drop k.length)
      if dirty then pure (true, mergeInto k newNode, oldHashes ++ n.oldHash)
      else pure (false, en.setChild 0 newNode, [])
  | depth + 1, n@(branch _ _ _ _), key => do
    n.isEmptyOrNil
    match key with
    | [] => .error .ErrValueTooShort
    | pos :: rest =>
      let bn ← n.resolveIfCollapsed db pos
      if (bn.childAt pos).isNil then pure (false, bn, [])
      else
        let (dirty, newNode, oldHashes) ← delete db depth (bn.childAt pos) rest
        if dirty then
          match bn with
          | branch enc children _ dirty =>
            -- `updateChildReference`
            let enc := if newNode.isNil then Function.update enc pos [] else enc
            reduceNodeIfNecessary db enc (Function.update children pos newNode) none dirty
              (oldHashes ++ n.oldHash)
          | _ => .error .nilNode
        else pure (false, bn.setChild pos newNode, [])

/-! ## Hashing -/

/-- `getEncodedNode`, before it is marshalled. -/
def getEncodedNode (n : Node) : Except NodeError (Collapsed Digit) := do
  n.isEmptyOrNil
  match n with
  | nil => .error .nilNode
  | leaf key value _ _ => pure (.leaf key value)
  | extension key enc _ _ _ => pure (.extension key enc)
  | branch enc _ _ _ => pure (.branch enc)

variable (hasher : Hasher Digit)

def encodeNodeAndGetHash (n : Node) : Except NodeError Bytes := do
  let content ← n.getEncodedNode
  pure (hasher.compute content)

/-- A node with the hash of what it is marshalled to. -/
def hashed (n : Node) : Except NodeError Node := do
  let h ← n.encodeNodeAndGetHash hasher
  pure (n.setGivenHash h)

/-- `setHash`, with `hashChildren` and `hashNode`; `setRootHash` differs in that a branch node
hashes its children concurrently.  A collapsed node has no children to hash. -/
def setHash (hasher : Hasher Digit) : Node → Except NodeError Node
  | nil => .error .nilNode
  | n@(leaf _ _ hash _) => do
    n.isEmptyOrNil
    if hash.isSome then pure n else n.hashed hasher
  | n@(extension key _ child hash dirty) => do
    n.isEmptyOrNil
    if hash.isSome then pure n
    else if child.isNil then n.hashed hasher
    else
      let child ← child.setHash hasher
      let enc ← child.encodeNodeAndGetHash hasher
      (extension key enc child none dirty).hashed hasher
  | n@(branch enc children hash dirty) => do
    n.isEmptyOrNil
    if hash.isSome then pure n
    else
      let children ← forEach fun i =>
        if (children i).isNil then pure nil else (children i).setHash hasher
      let enc ← forEach fun i =>
        if (children i).isNil then pure (enc i) else (children i).encodeNodeAndGetHash hasher
      (branch enc children none dirty).hashed hasher

/-- The hash of a loaded child, computed unless `hasValidHash` says that it is there: the child as
it is afterwards, and the hash. -/
def validHash (child : Node) : Except NodeError (Node × Bytes) := do
  child.isEmptyOrNil
  let child ← (if child.getHash = none ∨ child.isDirty then child.setHash hasher else pure child)
  pure (child, child.getHash.getD [])

/-- `getCollapsed`: the node as it is afterwards, and the node that holds the hashes of its children
instead of the children. -/
def getCollapsed : Node → Except NodeError (Node × Node)
  | nil => .error .nilNode
  | n@(leaf _ _ _ _) => pure (n, n)
  | n@(extension key enc child hash dirty) => do
    n.isEmptyOrNil
    if child.isNil then pure (n, n)
    else
      let (child, h) ← child.validHash hasher
      pure (extension key enc child hash dirty, extension key h nil hash dirty)
  | n@(branch enc children hash dirty) => do
    n.isEmptyOrNil
    let results ← forEach fun i =>
      if (children i).isNil then pure (nil, enc i) else (children i).validHash hasher
    pure (branch enc (fun i => (results i).1) hash dirty,
      branch (fun i => (results i).2) (fun _ => nil) hash dirty)

/-! ## Writing to the database -/

def encodeNodeAndCommitToDB (n : Node) (db : Database) : Except NodeError (Node × Database) := do
  let n ← (if n.getHash.isSome then pure n else n.setHash hasher)
  let (n, collapsed) ← n.getCollapsed hasher
  let content ← collapsed.getEncodedNode
  pure (n, db.insert (n.getHash.getD []) content)

/-- The end of `commit` of a node with children. -/
def collapseAt (level : UInt8) (maxTrieLevelInMemory : Nat) (n : Node) : Except NodeError Node :=
  if level.toNat = maxTrieLevelInMemory then do
    let (_, collapsed) ← n.getCollapsed hasher
    pure collapsed
  else pure n

/-- `commit` without `force`. -/
def commit (hasher : Hasher Digit) (maxTrieLevelInMemory : Nat) :
    Node → UInt8 → StateT Database (Except NodeError) Node
  | nil, _ => throw .nilNode
  | n@(leaf key value hash dirty), _ => do
    n.isEmptyOrNil
    if dirty then (leaf key value hash false).encodeNodeAndCommitToDB hasher else pure n
  | n@(extension key enc child hash dirty), level => do
    n.isEmptyOrNil
    if dirty then
      let child ← (if child.isNil then pure nil
        else child.commit hasher maxTrieLevelInMemory (level + 1))
      let n ← (extension key enc child hash false).encodeNodeAndCommitToDB hasher
      n.collapseAt hasher (level + 1) maxTrieLevelInMemory
    else pure n
  | n@(branch enc children hash dirty), level => do
    n.isEmptyOrNil
    if dirty then
      let children ← forEach fun i =>
        if (children i).isNil then pure nil
        else (children i).commit hasher maxTrieLevelInMemory (level + 1)
      let n ← (branch enc children hash false).encodeNodeAndCommitToDB hasher
      n.collapseAt hasher (level + 1) maxTrieLevelInMemory
    else pure n

end Node

end KleverGo.Trie
