import KleverGo.Lib.UnorderedMap
import KleverGo.Trie.Content

/-!
# State synchronisation

Reference model of `data/trie/sync.go`: `StartSyncing`, `checkIfSynced`, `addNew`, `getNode` and
`requestNodes`, with `loadChildren`, `getChildren`, `getCollapsed` and `encodeNodeAndCommitToDB` of
the nodes.  `nodesForTrie` is the worklist, a map that is ranged over while it is extended,
overwritten and deleted from.

What the syncer does not decide comes from an `Environment`: what `interceptedNodes` holds at each
of the lookups, the keys each range loop over `nodesForTrie` yields, when the watchdog has run out
and when the context is closed.  A range loop may yield any keys here, in any number; those that
are not in the map when their turn comes are passed over.

The two loops that need not end take fuel, and `none` says that the syncer is still at work.
-/

namespace KleverGo.Trie

variable {δ : Type}

/-- `trieNodeInfo`: a node that is still to be found, or one that has been received. -/
inductive TrieNodeInfo (δ : Type) where
  | missing
  | received (trieNode : Collapsed δ)

/-- An entry of `interceptedNodes`: an `InterceptedTrieNode`, or data of another type. -/
inductive Intercepted (δ : Type) where
  | node (n : Collapsed δ)
  | other

/-- Everything the syncer does not decide.  Lookups, range loops and passes are numbered in the
order in which they take place. -/
structure Environment (δ : Type) where
  interceptedNodes : Nat → Bytes → Option (Intercepted δ)
  order : Nat → List Bytes
  timeout : Nat → Bool
  /-- `none` is the `nil` context. -/
  done : Option (Nat → Bool)

/-- `trieSyncer`, with the database of its trie. -/
structure Syncer (δ : Type) where
  nodesForTrie : Finmap fun _ : Bytes => TrieNodeInfo δ
  db : Finmap fun _ : Bytes => Collapsed δ
  rootFound : Bool
  rootHash : Bytes
  /-- `ts.trie.root` -/
  root : Option (Collapsed δ)
  (lookups rounds passes : Nat)

def maxNewMissingAddedPerTurn : Nat := 10

/-- `getNode`, as the given lookup of the run. -/
def Syncer.getNode (env : Environment δ) (s : Syncer δ) (lookup : Nat) (hash : Bytes) :
    Except TrieError (Collapsed δ) :=
  match s.nodesForTrie.lookup hash with
  | some (.received n) => .ok n
  | _ =>
    match env.interceptedNodes lookup hash with
    | some (.node n) => .ok n
    | some .other => .error .ErrWrongTypeAssertion
    | none =>
      match s.db.lookup hash with
      | none => .error .ErrNodeNotFound
      -- `setHash` of a decoded node fails on an empty one
      | some n => if n.isEmptyOrNil.isSome then .error .ErrNodeNotFound else .ok n

/-- What `getNode` returns for each child of a node; the child at position `i` is the lookup
`lookup + i`. -/
def Syncer.fetched (env : Environment δ) (s : Syncer δ) (lookup : Nat) (n : Collapsed δ)
    (i : Fin 17) : Option (Except TrieError (Collapsed δ)) :=
  if n.encodedChild i = [] then none
  else some (s.getNode env (lookup + i) (n.encodedChild i))

/-- The first result of `loadChildren`. -/
def missingChildren (n : Collapsed δ)
    (fetched : Fin 17 → Option (Except TrieError (Collapsed δ))) : List Bytes :=
  (List.finRange 17).filterMap fun i =>
    match fetched i with
    | some (.error _) => some (n.encodedChild i)
    | _ => none

/-- The child that `loadChildren` attaches at a position. -/
def loaded (fetched : Fin 17 → Option (Except TrieError (Collapsed δ))) (i : Fin 17) :
    Option (Collapsed δ) :=
  match fetched i with
  | some (.ok child) => some child
  | _ => none

/-- The second result of `loadChildren`; once nothing is missing `getChildren` returns it too. -/
def existingChildren (fetched : Fin 17 → Option (Except TrieError (Collapsed δ))) :
    List (Collapsed δ) :=
  (List.finRange 17).filterMap (loaded fetched)

/-- `getCollapsed`: every attached child is replaced by its hash. -/
def getCollapsed (hasher : Hasher δ) (children : Fin 17 → Option (Collapsed δ)) :
    Collapsed δ → Collapsed δ
  | .leaf key value => .leaf key value
  | .extension key child => .extension key ((children 0).elim child hasher.compute)
  | .branch encoded => .branch fun i => (children i).elim (encoded i) hasher.compute

/-- One turn of the loop of `addNew`. -/
def addNewNode (hasher : Hasher δ) (n : Collapsed δ)
    (m : Finmap fun _ : Bytes => TrieNodeInfo δ) : Finmap fun _ : Bytes => TrieNodeInfo δ :=
  match m.lookup (hasher.compute n) with
  | some (.received _) => m
  | _ => m.insert (hasher.compute n) (.received n)

/-- `addNew`, the worklist it leaves. -/
def addNew (hasher : Hasher δ) (nextNodes : List (Collapsed δ))
    (m : Finmap fun _ : Bytes => TrieNodeInfo δ) : Finmap fun _ : Bytes => TrieNodeInfo δ :=
  nextNodes.foldl (fun m n => addNewNode hasher n m) m

/-- The result of `addNew`: whether one of the nodes had not been received. -/
def isNewElement (hasher : Hasher δ) :
    List (Collapsed δ) → (Finmap fun _ : Bytes => TrieNodeInfo δ) → Bool
  | [], _ => false
  | n :: rest, m =>
    (match m.lookup (hasher.compute n) with
      | some (.received _) => false
      | _ => true) || isNewElement hasher rest (addNewNode hasher n m)

/-- The variables of one run of `checkIfSynced`. -/
structure Pass (δ : Type) where
  syncer : Syncer δ
  missingNodes : Finset Bytes
  checkedNodes : Finset Bytes
  newElement : Bool
  shouldRetryAfterRequest : Bool

/-- How a turn of the range loop ends. -/
inductive Flow where
  | next
  | stop

/-- The loop over `currentMissingNodes`: the missing nodes and whether the hard cap was reached. -/
def addMissing (maxHardCapForMissingNodes : Nat) : List Bytes → Finset Bytes → Finset Bytes × Bool
  | [], missing => (missing, false)
  | hash :: rest, missing =>
    if maxHardCapForMissingNodes < (insert hash missing).card then (insert hash missing, true)
    else addMissing maxHardCapForMissingNodes rest (insert hash missing)

/-- The end of a turn, where every child is at hand: the children join the worklist, the node
leaves it and goes to the database. -/
def Syncer.commitNode (hasher : Hasher δ) (s : Syncer δ) (nodeHash : Bytes) (n : Collapsed δ)
    (fetched : Fin 17 → Option (Except TrieError (Collapsed δ))) : Syncer δ :=
  let collapsed := getCollapsed hasher (loaded fetched) n
  let isRoot := !s.rootFound && decide (nodeHash = s.rootHash)
  { s with
    nodesForTrie := (addNew hasher (existingChildren fetched) s.nodesForTrie).erase nodeHash
    db := s.db.insert (hasher.compute n) collapsed
    root := if isRoot then some collapsed else s.root
    rootFound := s.rootFound || isRoot }

section

variable (hasher : Hasher δ) (env : Environment δ) (maxHardCapForMissingNodes : Nat) (nodeHash : Bytes)

/-- What a turn does with a node it has found. -/
def visitNode (n : Collapsed δ) (p : Pass δ) : Except TrieError (Flow × Pass δ) :=
  let fetched := p.syncer.fetched env p.syncer.lookups n
  let s := { p.syncer with lookups := p.syncer.lookups + 17 }
  let p := { p with checkedNodes := insert nodeHash p.checkedNodes }
  match n.isEmptyOrNil with
  | some e => .error e
  | none =>
    if missingChildren n fetched ≠ [] then
      let (missing, hardcapReached) :=
        addMissing maxHardCapForMissingNodes (missingChildren n fetched) p.missingNodes
      if hardcapReached then
        .ok (.stop, { p with syncer := s, missingNodes := missing, newElement := false })
      else
        .ok (.next, { p with
          syncer := { s with
            nodesForTrie := addNew hasher (existingChildren fetched ++ [n]) s.nodesForTrie }
          missingNodes := missing
          shouldRetryAfterRequest := true
          newElement := p.newElement && !decide (maxNewMissingAddedPerTurn < missing.card) })
    else
      .ok (.next, { p with
        syncer := s.commitNode hasher nodeHash n fetched
        newElement :=
          p.newElement || isNewElement hasher (existingChildren fetched) s.nodesForTrie })

/-- One turn of the range loop over `nodesForTrie`. -/
def visit (p : Pass δ) : Except TrieError (Flow × Pass δ) :=
  match p.syncer.nodesForTrie.lookup nodeHash with
  | none => .ok (.next, p)
  | some info =>
    if nodeHash ∈ p.checkedNodes then .ok (.next, p)
    else
      match info with
      | .received n => visitNode hasher env maxHardCapForMissingNodes nodeHash n p
      | .missing =>
        let found := p.syncer.getNode env p.syncer.lookups nodeHash
        let p := { p with syncer := { p.syncer with lookups := p.syncer.lookups + 1 } }
        match found with
        | .error _ => .ok (.next, p)
        | .ok n => visitNode hasher env maxHardCapForMissingNodes nodeHash n p

end

/-- The range loop over `nodesForTrie`, with the keys it yields. -/
def range (hasher : Hasher δ) (env : Environment δ) (maxHardCapForMissingNodes : Nat) :
    List Bytes → Pass δ → Except TrieError (Pass δ)
  | [], p => .ok p
  | nodeHash :: rest, p =>
    match visit hasher env maxHardCapForMissingNodes nodeHash p with
    | .error e => .error e
    | .ok (.stop, p) => .ok p
    | .ok (.next, p) => range hasher env maxHardCapForMissingNodes rest p

/-- The loop `for newElement` of `checkIfSynced`. -/
def repeatRange (hasher : Hasher δ) (env : Environment δ) (maxHardCapForMissingNodes : Nat) :
    Nat → Pass δ → Option (Except TrieError (Pass δ))
  | 0, _ => none
  | fuel + 1, p =>
    let p := { p with
      newElement := false
      syncer := { p.syncer with rounds := p.syncer.rounds + 1 } }
    match range hasher env maxHardCapForMissingNodes (env.order p.syncer.rounds) p with
    | .error e => some (.error e)
    | .ok p =>
      if p.newElement then repeatRange hasher env maxHardCapForMissingNodes fuel p
      else some (.ok p)

/-- The last loop of `checkIfSynced`: every missing node is to be asked for. -/
def Syncer.addMissingNodes (s : Syncer δ) (missing : Finset Bytes) : Syncer δ :=
  { s with nodesForTrie := s.nodesForTrie.setAll missing .missing }

def checkIfSynced (hasher : Hasher δ) (env : Environment δ) (maxHardCapForMissingNodes fuel : Nat)
    (s : Syncer δ) : Option (Except TrieError (Bool × Syncer δ)) :=
  match repeatRange hasher env maxHardCapForMissingNodes fuel ⟨s, ∅, ∅, true, false⟩ with
  | none => none
  | some (.error e) => some (.error e)
  | some (.ok p) =>
    if env.timeout p.syncer.passes then some (.error .ErrTimeIsOut)
    else some (.ok (p.shouldRetryAfterRequest,
      { p.syncer.addMissingNodes p.missingNodes with passes := p.syncer.passes + 1 }))

/-- `requestNodes`, the number it returns: `uint32(len(ts.nodesForTrie))`. -/
def Syncer.requestNodes (s : Syncer δ) : UInt32 := UInt32.ofNat s.nodesForTrie.keys.card

/-- The loop of `StartSyncing`, with the state at its end. -/
def syncLoop (hasher : Hasher δ) (env : Environment δ) (maxHardCapForMissingNodes : Nat)
    (done : Nat → Bool) : Nat → Syncer δ → Option (Except TrieError (Syncer δ))
  | 0, _ => none
  | fuel + 1, s =>
    match checkIfSynced hasher env maxHardCapForMissingNodes fuel s with
    | none => none
    | some (.error e) => some (.error e)
    | some (.ok (shouldRetryAfterRequest, s)) =>
      if !shouldRetryAfterRequest && decide (s.requestNodes = 0) then some (.ok s)
      else if done s.passes then some (.error .ErrContextClosing)
      else syncLoop hasher env maxHardCapForMissingNodes done fuel s

/-- The syncer as `StartSyncing` sets it up. -/
def Syncer.start (db : Finmap fun _ : Bytes => Collapsed δ) (root : Option (Collapsed δ))
    (rootHash : Bytes) : Syncer δ :=
  ⟨Finmap.singleton rootHash .missing, db, false, rootHash, root, 0, 0, 0⟩

/-- `StartSyncing` on a trie with the given database and root: an error, or the syncer as it is
when `nil` is returned. -/
def startSyncing (hasher : Hasher δ) (env : Environment δ) (maxHardCapForMissingNodes fuel : Nat)
    (db : Finmap fun _ : Bytes => Collapsed δ) (root : Option (Collapsed δ)) (rootHash : Bytes) :
    Option (Except TrieError (Syncer δ)) :=
  if emptyTrie rootHash then
    some (.ok ⟨∅, db, false, rootHash, root, 0, 0, 0⟩)
  else
    match env.done with
    | none => some (.error .ErrNilContext)
    | some done =>
      syncLoop hasher env maxHardCapForMissingNodes done fuel (.start db root rootHash)

end KleverGo.Trie
