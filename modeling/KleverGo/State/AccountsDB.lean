import KleverGo.Core.Bytes
import KleverGo.Lib.Journal
import KleverGo.Lib.UnorderedMap

/-!
# The accounts database

Reference model of `AccountsDB` of `data/state/accountsDB.go` for user accounts, with the entries of
`journalEntries.go`, the holder of `dataTriesHolder.go` and the code entries with their reference
counts: `LoadAccount`, `SaveAccount`, `RemoveAccount`, `RemoveAccountCode`, `GetCode`, `JournalLen`
and `RevertToSnapshot`.

Tries are finite maps, and the root hash of a data trie is its contents; an account whose
`RootHash` field is empty has none.  The main trie is two maps, for accounts and for code entries:
no address is a code hash.  A data trie is shared by the accounts loaded from it and by the journal,
so it is a pointer into `heap`; `dataTries` has the pointer that belongs to each address.  The
database below the tries is the set of data tries it holds.
-/

namespace KleverGo.StateDB

abbrev Contents := Finmap fun _ : Bytes => Bytes

structure CodeEntry where
  code : Bytes
  numReferences : UInt32
  deriving DecidableEq

/-- `UserAccountData`; `rest` are the fields that the database does not look at. -/
structure UserAccount (φ : Type) where
  rootHash : Option Contents
  codeHash : Bytes
  rest : φ
  deriving DecidableEq

/-- `userAccount`, as `LoadAccount` hands it out and the caller changes it: `code` has what
`SetCode` was called with. -/
structure Handler (φ : Type) where
  account : UserAccount φ
  dataTrie : Option Nat
  code : Option Bytes
  dirtyData : Finmap fun _ : Bytes => Bytes

/-- The implementations of `JournalAccountEntry`. -/
inductive JournalEntry (φ : Type) where
  | account (address : Bytes) (old : UserAccount φ)
  | accountCreation (address : Bytes)
  | accountDataTrieUpdates (address : Bytes) (account : UserAccount φ) (dataTrie : Nat)
      (trieUpdates : Finmap fun _ : Bytes => Option Bytes)
  | accountDataTrieRemove (rootHash : Contents)
  | code (oldCodeEntry : Option CodeEntry) (oldCodeHash newCodeHash : Bytes)

/-- The main trie, the data tries in memory and `obsoleteDataTrieHashes`. -/
structure Tries (φ : Type) where
  accounts : Finmap fun _ : Bytes => UserAccount φ
  codes : Finmap fun _ : Bytes => CodeEntry
  heap : Nat → Contents
  obsoleteDataTrieHashes : Finset Contents

/-- `AccountsDB`; the pointers from `next` on are free. -/
structure AccountsDB (φ : Type) where
  tries : Tries φ
  dataTries : Finmap fun _ : Bytes => Nat
  next : Nat
  entries : List (JournalEntry φ)
  /-- the main trie of `lastRootHash` -/
  lastAccounts : Finmap fun _ : Bytes => UserAccount φ
  lastCodes : Finmap fun _ : Bytes => CodeEntry

inductive StateError where
  | ErrNilAddress
  | ErrAccNotFound
  | ErrMissingTrie (rootHash : Contents)
  | ErrHashNotFound
  | ErrSnapshotValueOutOfBounds

/-! ## Code entries -/

/-- `saveCodeEntry`; a `nil` entry marshals to nothing, which removes the leaf. -/
def saveCodeEntry (codeHash : Bytes) (entry : Option CodeEntry)
    (codes : Finmap fun _ : Bytes => CodeEntry) : Finmap fun _ : Bytes => CodeEntry :=
  match entry with
  | none => codes.erase codeHash
  | some entry => codes.insert codeHash entry

/-- Taking one reference away, as `updateOldCodeEntry` and `revertNewCodeEntry` do. -/
def dropReference (codeHash : Bytes) (codes : Finmap fun _ : Bytes => CodeEntry) :
    Finmap fun _ : Bytes => CodeEntry :=
  match codes.lookup codeHash with
  | none => codes
  | some entry =>
    if entry.numReferences ≤ 1 then codes.erase codeHash
    else codes.insert codeHash { entry with numReferences := entry.numReferences - 1 }

def updateNewCodeEntry (newCodeHash newCode : Bytes)
    (codes : Finmap fun _ : Bytes => CodeEntry) : Finmap fun _ : Bytes => CodeEntry :=
  if newCode = [] then codes
  else
    let entry := (codes.lookup newCodeHash).getD ⟨newCode, 0⟩
    codes.insert newCodeHash { entry with numReferences := entry.numReferences + 1 }

variable {φ : Type}

variable (s : AccountsDB φ)

def AccountsDB.getCode (codeHash : Bytes) : Bytes :=
  if codeHash = [] then []
  else ((s.tries.codes.lookup codeHash).map CodeEntry.code).getD []

/-! ## The journal -/

/-- The data trie that a pointer leads to is written. -/
def Tries.writeData (t : Tries φ) (dataTrie : Nat)
    (updates : Finmap fun _ : Bytes => Option Bytes) : Tries φ :=
  { t with heap := Function.update t.heap dataTrie ((t.heap dataTrie).overwrite updates) }

def Tries.saveAccountToTrie (t : Tries φ) (address : Bytes) (account : UserAccount φ) : Tries φ :=
  { t with accounts := t.accounts.insert address account }

/-- `Revert` of an entry; an account that it returns is saved to the main trie. -/
def JournalEntry.revert : JournalEntry φ → Tries φ → Tries φ
  | .account address old, t => t.saveAccountToTrie address old
  | .accountCreation address, t => { t with accounts := t.accounts.erase address }
  | .accountDataTrieUpdates address holder dataTrie trieUpdates, t =>
    let t := t.writeData dataTrie trieUpdates
    t.saveAccountToTrie address { holder with rootHash := some (t.heap dataTrie) }
  | .accountDataTrieRemove rootHash, t =>
    { t with obsoleteDataTrieHashes := t.obsoleteDataTrieHashes.erase rootHash }
  | .code oldCodeEntry oldCodeHash newCodeHash, t =>
    if oldCodeHash = newCodeHash then t
    else
      let codes := if oldCodeHash = [] then t.codes
        else saveCodeEntry oldCodeHash oldCodeEntry t.codes
      { t with codes := dropReference newCodeHash codes }

def AccountsDB.journalize (entry : JournalEntry φ) : AccountsDB φ :=
  { s with entries := s.entries ++ [entry] }

def AccountsDB.journalLen : Nat := s.entries.length

/-- `recreateTrie(adb.lastRootHash)` -/
def AccountsDB.recreateTrie : AccountsDB φ :=
  { s with
    tries := { s.tries with
      accounts := s.lastAccounts
      codes := s.lastCodes
      obsoleteDataTrieHashes := ∅ }
    dataTries := ∅
    entries := [] }

def AccountsDB.revertToSnapshot (snapshot : Int) (s : AccountsDB φ) :
    Except StateError Unit × AccountsDB φ :=
  if snapshot > s.entries.length ∨ snapshot < 0 then
    (.error .ErrSnapshotValueOutOfBounds, s)
  else if snapshot = 0 then (.ok (), s.recreateTrie)
  else (.ok (), { s with
    tries := Journal.undoAll JournalEntry.revert (s.entries.drop snapshot.toNat).reverse s.tries
    entries := s.entries.take snapshot.toNat })

/-- A data trie with the given contents is put into memory as that of an address. -/
def AccountsDB.newDataTrie (address : Bytes) (contents : Contents) (s : AccountsDB φ) :
    AccountsDB φ :=
  { s with
    tries := { s.tries with heap := Function.update s.tries.heap s.next contents }
    dataTries := s.dataTries.insert address s.next
    next := s.next + 1 }

/-! ## Loading -/

section

-- the data tries that the database holds, and the fields of an account that has just been created
variable (db : Contents → Bool) (blank : φ)

/-- `mainTrie.Recreate`: whether the data trie with a root hash can be had. -/
def recreates (rootHash : Contents) : Bool := decide (rootHash = ∅) || db rootHash

/-- `loadDataTrie`, with the data trie that the account gets. -/
def AccountsDB.loadDataTrie (address : Bytes) (account : UserAccount φ) (s : AccountsDB φ) :
    Except StateError (Option Nat) × AccountsDB φ :=
  match account.rootHash with
  | none => (.ok none, s)
  | some rootHash =>
    match s.dataTries.lookup address with
    | some dataTrie => (.ok (some dataTrie), s)
    | none =>
      if recreates db rootHash then (.ok (some s.next), s.newDataTrie address rootHash)
      else (.error (.ErrMissingTrie rootHash), s)

def AccountsDB.loadAccount (address : Bytes) (s : AccountsDB φ) :
    Except StateError (Handler φ) × AccountsDB φ :=
  if address = [] then (.error .ErrNilAddress, s)
  else
    match s.tries.accounts.lookup address with
    | none => (.ok ⟨⟨none, [], blank⟩, none, none, ∅⟩, s)
    | some account =>
      match s.loadDataTrie db address account with
      | (.error e, s) => (.error e, s)
      | (.ok dataTrie, s) => (.ok ⟨account, dataTrie, none, ∅⟩, s)

end

/-! ## Saving -/

/-- The values that `saveDataTrie` writes; an empty one removes its key. -/
def Handler.updates (h : Handler φ) : Finmap fun _ : Bytes => Option Bytes :=
  h.dirtyData.mapWithKey fun _ value => decodedBytes value

/-- The first part of `saveDataTrie`: an account without a data trie gets a new one. -/
def AccountsDB.ensureDataTrie (address : Bytes) (h : Handler φ) (s : AccountsDB φ) :
    Nat × AccountsDB φ :=
  match h.dataTrie with
  | some dataTrie => (dataTrie, s)
  | none => (s.next, s.newDataTrie address ∅)

/-- `hasher.Compute` of a contract's code. -/
structure CodeHasher where
  compute : Bytes → Bytes
  compute_ne_nil : ∀ code, compute code ≠ []

/-- A hasher that marks the code. -/
def markingHasher : CodeHasher := ⟨fun code => 0 :: code, fun _ => List.cons_ne_nil _ _⟩

section

variable (hasher : CodeHasher)

/-- The code hash that `saveCode` gives an account. -/
def newCodeHash (code : Bytes) : Bytes := if code = [] then [] else hasher.compute code

/-- The code hash of the account that the main trie has. -/
def oldCodeHash (old : Option (UserAccount φ)) : Bytes := (old.map UserAccount.codeHash).getD []

/-- `saveCode`: the code hash of the account, the code entries and what is journaled. -/
def saveCode (old : Option (UserAccount φ)) (h : Handler φ)
    (codes : Finmap fun _ : Bytes => CodeEntry) :
    Bytes × (Finmap fun _ : Bytes => CodeEntry) × List (JournalEntry φ) :=
  match h.code with
  | none => (h.account.codeHash, codes, [])
  | some code =>
    if oldCodeHash old = newCodeHash hasher code then (newCodeHash hasher code, codes, [])
    else
      (newCodeHash hasher code,
        updateNewCodeEntry (newCodeHash hasher code) code (dropReference (oldCodeHash old) codes),
        [.code (codes.lookup (oldCodeHash old)) (oldCodeHash old) (newCodeHash hasher code)])

/-- The entry that `SaveAccount` journals first. -/
def accountEntry (address : Bytes) : Option (UserAccount φ) → JournalEntry φ
  | none => .accountCreation address
  | some old => .account address old

/-- `SaveAccount`.  The entry for the data trie holds the account itself, so it has the code hash
that `saveCode` sets afterwards. -/
def AccountsDB.saveAccount (address : Bytes) (h : Handler φ) (s : AccountsDB φ) : AccountsDB φ :=
  let old := s.tries.accounts.lookup address
  let (codeHash, codes, codeEntries) := saveCode hasher old h s.tries.codes
  if h.dirtyData = ∅ then
    let account := { h.account with codeHash := codeHash }
    { s with
      tries := { s.tries with codes := codes }.saveAccountToTrie address account
      entries := s.entries ++ [accountEntry address old] ++ codeEntries }
  else
    let (dataTrie, s) := s.ensureDataTrie address h
    let trieUpdates := (s.tries.heap dataTrie).saved h.updates
    let tries := s.tries.writeData dataTrie h.updates
    let account : UserAccount φ := ⟨some (tries.heap dataTrie), codeHash, h.account.rest⟩
    { s with
      tries := { tries with codes := codes }.saveAccountToTrie address account
      entries := s.entries ++
        [accountEntry address old, .accountDataTrieUpdates address account dataTrie trieUpdates] ++
          codeEntries }

end

/-! ## Removing -/

def AccountsDB.removeCode (account : UserAccount φ) (s : AccountsDB φ) : AccountsDB φ :=
  { s with
    tries := { s.tries with codes := dropReference account.codeHash s.tries.codes }
    entries := s.entries ++
      [.code (s.tries.codes.lookup account.codeHash) account.codeHash []] }

def AccountsDB.removeDataTrie (db : Contents → Bool) (account : UserAccount φ)
    (s : AccountsDB φ) : Except StateError Unit × AccountsDB φ :=
  match account.rootHash with
  | none => (.ok (), s)
  | some rootHash =>
    if recreates db rootHash then
      (.ok (), { s with
        tries := { s.tries with
          obsoleteDataTrieHashes := insert rootHash s.tries.obsoleteDataTrieHashes }
        entries := s.entries ++ [.accountDataTrieRemove rootHash] })
    else (.error .ErrHashNotFound, s)

def AccountsDB.removeAccountCode (address : Bytes) (s : AccountsDB φ) :
    Except StateError Unit × AccountsDB φ :=
  if address = [] then (.error .ErrNilAddress, s)
  else
    match s.tries.accounts.lookup address with
    | none => (.error .ErrAccNotFound, s)
    | some account => (.ok (), (s.journalize (.account address account)).removeCode account)

def AccountsDB.removeAccount (db : Contents → Bool) (address : Bytes) (s : AccountsDB φ) :
    Except StateError Unit × AccountsDB φ :=
  if address = [] then (.error .ErrNilAddress, s)
  else
    match s.tries.accounts.lookup address with
    | none => (.error .ErrAccNotFound, s)
    | some account =>
      match ((s.journalize (.account address account)).removeCode account).removeDataTrie db
          account with
      | (.error e, s) => (.error e, s)
      | (.ok _, s) =>
        (.ok (), { s with tries := { s.tries with accounts := s.tries.accounts.erase address } })

end KleverGo.StateDB
