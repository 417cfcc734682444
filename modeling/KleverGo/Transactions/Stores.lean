import KleverGo.Core.Context
import KleverGo.Lib.Journal

/-!
# Stores and the accounts cache

`AccountsDB` of `data/state/accountsDB.go` keeps accounts in a main trie and the data of each account
in a trie of its own, and journals every change; `accountsCacher` of `data/state/accountsCacher.go`
hands out one handler per account and saves them all at the end.  A root hash stands for the contents
it commits to.  The store is generic in the fields of an account (users, KApps, peers); tries, the
encoding of accounts and the database never fail.

* `saveAccount_spec`: undoing the entries of a save restores the store.
* `Coherent.exec`, `Coherent.saveAll`: **so does undoing the entries of any cache operation.**
* `revertToSnapshot_spec`: `RevertToSnapshot` goes back to the store at the snapshot.
-/

namespace KleverGo.Transactions

open List Function

/-- The contents of a data trie; a key that is not there has the empty value. -/
abbrev DataTrie := Bytes → Bytes

/-- Values written over a trie. -/
def overlay (values : List (Bytes × Bytes)) (trie : DataTrie) : DataTrie :=
  fun key => (values.lookup key).getD (trie key)

/-- An account as the main trie holds it; no root hash is an empty one. -/
structure Stored (F : Type) where
  fields : F
  rootHash : Option DataTrie

/-- An account handler, with the dirty data of its data trie. -/
structure Handler (F : Type) where
  fields : F
  rootHash : Option DataTrie
  dirtyData : List (Bytes × Bytes)

/-- `JournalAccountEntry` of `journalEntries.go`; code is that of smart contracts. -/
inductive JournalEntry (F : Type) where
  | account (address : Bytes) (old : Stored F)
  | accountCreation (address : Bytes)
  | accountDataTrieUpdates (address : Bytes) (trieUpdates : List (Bytes × Bytes)) (fields : F)

/-- The main trie and the holder of the data tries. -/
structure Tries (F : Type) where
  mainTrie : Bytes → Option (Stored F)
  dataTries : Bytes → Option DataTrie

/-- `AccountsDB`; the entries are the newest first. -/
structure AccountsDB (F : Type) where
  tries : Tries F
  entries : List (JournalEntry F)
  /-- the main trie of `lastRootHash` -/
  committed : Bytes → Option (Stored F)

section
variable {F : Type}

/-- `loadDataTrie`: the trie of the holder, or the one the root hash names. -/
def Tries.dataTrie (t : Tries F) (address : Bytes) : Option DataTrie → DataTrie
  | none => fun _ => []
  | some rootHash => (t.dataTries address).getD rootHash

/-- The root hash of an account in the main trie. -/
def Tries.rootHash (t : Tries F) (address : Bytes) : Option DataTrie :=
  (t.mainTrie address).bind Stored.rootHash

/-- `Revert` of an entry, with the save of the account it returns. -/
def JournalEntry.revert : JournalEntry F → Tries F → Tries F
  | .account address old, t => { t with mainTrie := update t.mainTrie address (some old) }
  | .accountCreation address, t => { t with mainTrie := update t.mainTrie address none }
  | .accountDataTrieUpdates address trieUpdates fields, t =>
    let trie := overlay trieUpdates (t.dataTrie address (t.rootHash address))
    ⟨update t.mainTrie address (some ⟨fields, some trie⟩),
      update t.dataTries address (some trie)⟩

/-- The entry that `SaveAccount` journals for the account itself. -/
def Tries.accountEntry (t : Tries F) (address : Bytes) : JournalEntry F :=
  (t.mainTrie address).elim (.accountCreation address) (.account address)

namespace AccountsDB

/-- `SaveAccount`; the handler gets the new root hash and its dirty data is cleared. -/
def saveAccount (db : AccountsDB F) (address : Bytes) (h : Handler F) : AccountsDB F × Handler F :=
  if h.dirtyData.isEmpty then
    ({ db with
        tries := { db.tries with
          mainTrie := update db.tries.mainTrie address (some ⟨h.fields, h.rootHash⟩) }
        entries := db.tries.accountEntry address :: db.entries }, h)
  else
    let old := db.tries.dataTrie address h.rootHash
    let trie := overlay h.dirtyData old
    let updates := h.dirtyData.map fun entry => (entry.1, old entry.1)
    ({ db with
        tries :=
          ⟨update db.tries.mainTrie address (some ⟨h.fields, some trie⟩),
            update db.tries.dataTries address (some trie)⟩
        entries :=
          .accountDataTrieUpdates address updates h.fields :: db.tries.accountEntry address ::
            db.entries },
      ⟨h.fields, some trie, []⟩)

/-- `RevertToSnapshot`; with 0 the trie of the last commit is read again. -/
def revertToSnapshot (db : AccountsDB F) (snapshot : Nat) : Except Err (AccountsDB F) :=
  if db.entries.length < snapshot then .error .ErrSnapshotValueOutOfBounds
  else if snapshot = 0 then .ok ⟨⟨db.committed, fun _ => none⟩, [], db.committed⟩
  else
    let reverted := db.entries.length - snapshot
    .ok { db with
      tries := Journal.undoAll JournalEntry.revert (db.entries.take reverted) db.tries
      entries := db.entries.drop reverted }

end AccountsDB

/-- One side of the cacher: a store and the handlers it handed out, in the order of the list. -/
structure CachedDB (F : Type) where
  db : AccountsDB F
  cache : List (Bytes × Handler F)

namespace CachedDB

def handlerOf (account : Stored F) : Handler F := ⟨account.fields, account.rootHash, []⟩

section

variable (c : CachedDB F)

/-- A handler that is new in the cache. -/
def handOut (address : Bytes) (h : Handler F) : CachedDB F :=
  { c with cache := c.cache ++ [(address, h)] }

/-- The handler in the cache, or the one that `read` makes of the stored account. -/
def handle (address : Bytes) (read : Option (Stored F) → Except Err (Handler F)) :
    Except Err (Handler F × CachedDB F) := do
  match c.cache.lookup address with
  | some h => pure (h, c)
  | none =>
    reject (address = []) .ErrNilAddress
    let h ← read (c.db.tries.mainTrie address)
    pure (h, c.handOut address h)

/-- `GetExistingUser`, `GetExistingKapp`, `GetExistingPeer` -/
def getExisting (address : Bytes) : Except Err (Handler F × CachedDB F) :=
  c.handle address fun account => handlerOf <$> orError account .ErrAccNotFound

/-- `LoadUser`, `LoadKApp`, `LoadPeer`; `new` is the account the factory creates. -/
def load (new : F) (address : Bytes) : Except Err (Handler F × CachedDB F) :=
  c.handle address fun account => pure (account.elim ⟨new, none, []⟩ handlerOf)

/-- A change of the handler that the cache holds for an address. -/
def write (address : Bytes) (fields : F) (dirtyData : List (Bytes × Bytes)) : CachedDB F :=
  { c with
    cache := c.cache.map fun e =>
      (e.1, if e.1 = address then ⟨fields, e.2.rootHash, dirtyData⟩ else e.2) }

/-- `SaveUser` of a handler: it is saved and leaves the cache. -/
def saveUser (address : Bytes) (h : Handler F) : CachedDB F × Handler F :=
  let saved := c.db.saveAccount address h
  (⟨saved.1, c.cache.filter fun e => e.1 ≠ address⟩, saved.2)

/-- The part of `SaveAll` for this side, with the reset of its cache. -/
def saveAll : CachedDB F :=
  ⟨c.cache.foldl (fun db e => (db.saveAccount e.1 e.2).1) c.db, []⟩

/-- The part of `ResetAll` for this side. -/
def reset : CachedDB F := { c with cache := [] }

end

end CachedDB

/-! ## Undoing a save -/

/-- The data tries in memory are those the main trie names. -/
def Synced (t : Tries F) : Prop :=
  ∀ address rootHash trie, t.rootHash address = some rootHash → t.dataTries address = some trie →
    trie = rootHash

/-- The same accounts, with data tries that agree with them. -/
def Same (t s : Tries F) : Prop := t.mainTrie = s.mainTrie ∧ Synced t

/-- The account that saving a handler stores. -/
def savedOf (h : Handler F) : Stored F :=
  ⟨h.fields, if h.dirtyData.isEmpty then h.rootHash
    else some (overlay h.dirtyData (h.rootHash.getD fun _ => []))⟩

variable {t : Tries F}

theorem Synced.dataTrie (h : Synced t) (address : Bytes) :
    t.dataTrie address (t.rootHash address) = (t.rootHash address).getD fun _ => [] := by
  cases hroot : t.rootHash address with
  | none => rfl
  | some rootHash =>
    cases htrie : t.dataTries address with
    | none => simp [Tries.dataTrie, htrie]
    | some trie => simp [Tries.dataTrie, htrie, h address rootHash trie hroot htrie]

theorem overlay_old (values : List (Bytes × Bytes)) (trie : DataTrie) :
    overlay (values.map fun e => (e.1, trie e.1)) (overlay values trie) = trie := by
  funext key
  have hlookup : (values.map fun e => (e.1, trie e.1)).lookup key =
      (values.lookup key).map fun _ => trie key := by
    induction values with
    | nil => rfl
    | cons e rest ih =>
      obtain ⟨k, v⟩ := e
      simp only [map_cons, lookup_cons, ih]
      by_cases hkey : key = k
      · rw [hkey, beq_self_eq_true]
        rfl
      · rw [beq_false_of_ne hkey]
  unfold overlay
  rw [hlookup]
  cases values.lookup key <;> rfl

theorem rootHash_update (t : Tries F) (d : Bytes → Option DataTrie) (address a : Bytes)
    (account : Option (Stored F)) :
    Tries.rootHash ⟨update t.mainTrie address account, d⟩ a =
      if a = address then account.bind Stored.rootHash else t.rootHash a := by
  unfold Tries.rootHash
  by_cases ha : a = address
  · subst ha
    simp
  · simp [ha]

theorem accountEntry_revert (t0 : Tries F) (address : Bytes) (t : Tries F) :
    (t0.accountEntry address).revert t =
      { t with mainTrie := update t.mainTrie address (t0.mainTrie address) } := by
  unfold Tries.accountEntry
  cases t0.mainTrie address <;> rfl

/-- The tries after a save without dirty data. -/
def Tries.setAccount (t : Tries F) (address : Bytes) (account : Stored F) : Tries F :=
  { t with mainTrie := update t.mainTrie address (some account) }

/-- The tries after a save with dirty data, which gives the account a new data trie. -/
def Tries.setAccountData (t : Tries F) (address : Bytes) (fields : F) (trie : DataTrie) : Tries F :=
  ⟨update t.mainTrie address (some ⟨fields, some trie⟩),
    update t.dataTries address (some trie)⟩

variable {account : Stored F}

theorem synced_setAccount (hs : Synced t) {address : Bytes}
    (hroot : account.rootHash = t.rootHash address) : Synced (t.setAccount address account) := by
  intro a rootHash trie hr ht
  rw [Tries.setAccount, rootHash_update] at hr
  split at hr
  · rename_i ha
    rw [Option.bind_some, hroot, ← ha] at hr
    exact hs a rootHash trie hr ht
  · exact hs a rootHash trie hr ht

theorem synced_setAccountData (hs : Synced t) (address : Bytes) (fields : F) (trie : DataTrie) :
    Synced (t.setAccountData address fields trie) := by
  intro a rootHash c hr ht
  rw [Tries.setAccountData, rootHash_update] at hr
  unfold Tries.setAccountData at ht
  dsimp only at ht
  by_cases ha : a = address
  · rw [if_pos ha, Option.bind_some] at hr
    rw [ha, update_self] at ht
    exact Option.some_inj.1 (ht.symm.trans hr)
  · rw [if_neg ha] at hr
    rw [update_of_ne ha] at ht
    exact hs a rootHash c hr ht

variable {t0 : Tries F}

/-- Without dirty data the root hash does not change, and only the account is put back. -/
theorem undoes_setAccount {address : Bytes} (hroot : account.rootHash = t0.rootHash address) :
    Journal.Undoes JournalEntry.revert Same [t0.accountEntry address] t0
      (t0.setAccount address account) := by
  rintro t ⟨hmain, hsync⟩
  unfold Tries.setAccount at hmain
  dsimp only at hmain
  change Same ((t0.accountEntry address).revert t) t0
  rw [accountEntry_revert]
  refine ⟨?_, ?_⟩
  · rw [hmain, update_idem, update_eq_self]
  intro a rootHash trie hr ht
  rw [rootHash_update] at hr
  by_cases ha : a = address
  · subst ha
    rw [if_pos rfl] at hr
    refine hsync a rootHash trie ?_ ht
    rw [Tries.rootHash, hmain, update_self, Option.bind_some, hroot]
    exact hr
  · rw [if_neg ha] at hr
    exact hsync a rootHash trie hr ht

/-- With dirty data the old values go back into the data trie as well. -/
theorem undoes_setAccountData {address : Bytes} (fields : F) (dirtyData : List (Bytes × Bytes))
    {old : DataTrie} (hold : old = (t0.rootHash address).getD fun _ => []) :
    Journal.Undoes JournalEntry.revert Same
      [.accountDataTrieUpdates address (dirtyData.map fun e => (e.1, old e.1)) fields,
        t0.accountEntry address] t0
      (t0.setAccountData address fields (overlay dirtyData old)) := by
  rintro t ⟨hmain, hsync⟩
  unfold Tries.setAccountData at hmain
  dsimp only at hmain
  have hroot : t.rootHash address = some (overlay dirtyData old) := by
    rw [Tries.rootHash, hmain, update_self, Option.bind_some]
  have htrie := hsync.dataTrie address
  rw [hroot, Option.getD_some] at htrie
  change Same ((t0.accountEntry address).revert
    (JournalEntry.revert (.accountDataTrieUpdates _ _ _) t)) _
  rw [accountEntry_revert]
  simp only [JournalEntry.revert, hroot, htrie, overlay_old, update_idem]
  refine ⟨?_, ?_⟩
  · rw [hmain, update_idem, update_eq_self]
  intro a rootHash trie hr ht
  rw [rootHash_update] at hr
  dsimp only at ht
  by_cases ha : a = address
  · subst ha
    rw [if_pos rfl] at hr
    have hr' : t0.rootHash a = some rootHash := hr
    rw [update_self, hold, hr', Option.getD_some] at ht
    exact (Option.some_inj.1 ht).symm
  · rw [if_neg ha] at hr
    rw [update_of_ne ha] at ht
    exact hsync a rootHash trie hr ht

/-- A handler whose root hash is that of the stored account. -/
def Fresh (db : AccountsDB F) (address : Bytes) (h : Handler F) : Prop :=
  h.rootHash = db.tries.rootHash address

/-- What a change of the store has journaled: undoing it goes back. -/
structure Advances (db db' : AccountsDB F) : Prop where
  committed : db'.committed = db.committed
  synced : Synced db'.tries
  journal : ∃ block, db'.entries = block ++ db.entries ∧
    Journal.Undoes JournalEntry.revert Same block db.tries db'.tries

variable {db : AccountsDB F}

theorem Advances.refl (h : Synced db.tries) : Advances db db :=
  ⟨rfl, h, [], rfl, .refl _⟩

theorem Advances.trans {db1 db2 : AccountsDB F} (h1 : Advances db db1) (h2 : Advances db1 db2) :
    Advances db db2 := by
  obtain ⟨block1, hentries1, hundo1⟩ := h1.journal
  obtain ⟨block2, hentries2, hundo2⟩ := h2.journal
  refine ⟨h2.committed.trans h1.committed, h2.synced, block2 ++ block1, ?_, hundo1.trans hundo2⟩
  rw [hentries2, hentries1, append_assoc]

/-- **Saving an account** stores it, and undoing what it journals restores the store. -/
theorem saveAccount_spec (hs : Synced db.tries) {address : Bytes} {h : Handler F}
    (hfresh : Fresh db address h) :
    (db.saveAccount address h).1.tries.mainTrie =
      update db.tries.mainTrie address (some (savedOf h)) ∧
    Advances db (db.saveAccount address h).1 := by
  unfold AccountsDB.saveAccount savedOf
  split
  · exact ⟨rfl, rfl, synced_setAccount hs hfresh, [_], rfl, undoes_setAccount hfresh⟩
  have hold : db.tries.dataTrie address h.rootHash = h.rootHash.getD fun _ => [] := by
    rw [hfresh]
    exact hs.dataTrie address
  refine ⟨?_, rfl, synced_setAccountData hs _ _ _, [_, _], rfl, undoes_setAccountData _ _ ?_⟩
  · simp only [hold]
  · rw [hold, hfresh]

/-- The handler that was saved is fresh again, with the fields it had. -/
theorem saveAccount_handler (db : AccountsDB F) (address : Bytes) (h : Handler F) :
    Fresh (db.saveAccount address h).1 address (db.saveAccount address h).2 ∧
    (db.saveAccount address h).2.fields = h.fields := by
  unfold AccountsDB.saveAccount Fresh Tries.rootHash
  split <;> exact ⟨by simp, rfl⟩

/-- **`RevertToSnapshot` goes back to the store at the snapshot.** -/
theorem revertToSnapshot_spec {db' : AccountsDB F}
    (hcommitted : db.entries = [] → db.tries.mainTrie = db.committed) (h : Advances db db') :
    ∃ back, db'.revertToSnapshot db.entries.length = .ok back ∧ Same back.tries db.tries ∧
      back.entries = db.entries ∧ back.committed = db.committed := by
  obtain ⟨block, hentries, hundo⟩ := h.journal
  have hlength : db'.entries.length = block.length + db.entries.length := by
    rw [hentries, length_append]
  unfold AccountsDB.revertToSnapshot
  rw [if_neg (by omega)]
  split
  · rename_i hzero
    have hnil := length_eq_zero_iff.1 hzero
    refine ⟨_, rfl, ⟨?_, ?_⟩, hnil.symm, h.committed⟩
    · rw [hcommitted hnil]
      exact h.committed
    · intro a rootHash trie _ htrie
      cases htrie
  · refine ⟨_, rfl, ?_, ?_, h.committed⟩
    · have htake : db'.entries.take (db'.entries.length - db.entries.length) = block := by
        rw [hlength, Nat.add_sub_cancel, hentries, take_left]
      rw [htake]
      exact hundo _ ⟨rfl, h.synced⟩
    · rw [hlength, Nat.add_sub_cancel, hentries, drop_left]

/-! ## Cache operations -/

/-- An operation of a KApp on one side of the cacher; a save is of the handler in the cache. -/
inductive SideOp (F : Type) where
  | getExisting (address : Bytes)
  | load (new : F) (address : Bytes)
  | write (address : Bytes) (fields : F) (dirtyData : List (Bytes × Bytes))
  | save (address : Bytes)

/-- The side after an operation; one that fails changes nothing. -/
def CachedDB.exec (c : CachedDB F) : SideOp F → CachedDB F
  | .getExisting address => (c.getExisting address).toOption.elim c Prod.snd
  | .load new address => (c.load new address).toOption.elim c Prod.snd
  | .write address fields dirtyData => c.write address fields dirtyData
  | .save address => (c.cache.lookup address).elim c fun h => (c.saveUser address h).1

/-- The handlers of a cache are of different accounts with an address, and each is fresh. -/
structure Coherent (c : CachedDB F) : Prop where
  synced : Synced c.db.tries
  nodup : (c.cache.map Prod.fst).Nodup
  fresh : ∀ e ∈ c.cache, Fresh c.db e.1 e.2
  named : ∀ e ∈ c.cache, e.1 ≠ []

/-- A later state of a side. -/
structure Follows (c c' : CachedDB F) : Prop where
  coherent : Coherent c'
  advances : Advances c.db c'.db

/-- A handler that a call of the cacher returns: the one in the cache, or one of the stored account
that is new in the cache. -/
inductive Gives (c : CachedDB F) (address : Bytes) : Handler F → CachedDB F → Prop
  | cached {h : Handler F} (hl : c.cache.lookup address = some h) : Gives c address h c
  | read {h : Handler F} (hl : c.cache.lookup address = none) (hfresh : Fresh c.db address h)
    (hnamed : address ≠ []) : Gives c address h (c.handOut address h)

variable {c c' : CachedDB F} {address : Bytes} {h : Handler F}

theorem handle_gives {read : Option (Stored F) → Except Err (Handler F)}
    (hread : ∀ account h, read account = .ok h → h.rootHash = account.bind (·.rootHash))
    (hg : c.handle address read = .ok (h, c')) : Gives c address h c' := by
  unfold CachedDB.handle at hg
  split at hg
  · rename_i h0 hl
    simp only [pure_eq_ok, Prod.mk.injEq] at hg
    obtain ⟨rfl, rfl⟩ := hg
    exact .cached hl
  rename_i hl
  simp only [bind_eq_ok, pure_eq_ok, reject_eq_ok, Prod.mk.injEq] at hg
  obtain ⟨-, hnamed, h0, hh, rfl, rfl⟩ := hg
  exact .read hl (hread _ _ hh) hnamed

theorem getExisting_gives (hg : c.getExisting address = .ok (h, c')) : Gives c address h c' := by
  refine handle_gives (fun account h hh => ?_) hg
  cases account <;> cases hh
  rfl

theorem load_gives {new : F} (hg : c.load new address = .ok (h, c')) : Gives c address h c' := by
  refine handle_gives (fun account h hh => ?_) hg
  cases account <;> cases hh <;> rfl

theorem rootHash_saveAccount (hs : Synced db.tries) {address : Bytes} {h : Handler F}
    (hfresh : Fresh db address h) {a : Bytes} (ha : a ≠ address) :
    (db.saveAccount address h).1.tries.rootHash a = db.tries.rootHash a := by
  rw [Tries.rootHash, (saveAccount_spec hs hfresh).1, update_of_ne ha]
  rfl

theorem saveAll_loop (hs : Synced db.tries) {cache : List (Bytes × Handler F)}
    (hnodup : (cache.map Prod.fst).Nodup) (hfresh : ∀ e ∈ cache, Fresh db e.1 e.2) :
    let db' := cache.foldl (fun db e => (db.saveAccount e.1 e.2).1) db
    Advances db db' ∧ ∀ a, db'.tries.mainTrie a =
      (cache.lookup a).elim (db.tries.mainTrie a) fun h => some (savedOf h) := by
  induction cache generalizing db with
  | nil => exact ⟨.refl hs, fun _ => rfl⟩
  | cons e rest ih =>
    obtain ⟨address, h⟩ := e
    rw [map_cons, nodup_cons] at hnodup
    have hfresh0 : Fresh db address h := hfresh (address, h) mem_cons_self
    obtain ⟨hmain, hadvances⟩ := saveAccount_spec hs hfresh0
    have hrest : ∀ e ∈ rest, Fresh (db.saveAccount address h).1 e.1 e.2 := by
      intro e he
      have hne : e.1 ≠ address := fun heq => hnodup.1 (mem_map.2 ⟨e, he, heq⟩)
      exact (hfresh e (mem_cons_of_mem _ he)).trans (rootHash_saveAccount hs hfresh0 hne).symm
    obtain ⟨hadvances', hmain'⟩ := ih hadvances.synced hnodup.2 hrest
    refine ⟨hadvances.trans hadvances', fun a => ?_⟩
    rw [foldl_cons, hmain' a, hmain, lookup_cons]
    by_cases ha : a = address
    · have hnone : rest.lookup a = none := by
        rw [lookup_eq_none_iff]
        intro e he
        exact bne_iff_ne.2 fun heq => hnodup.1 (mem_map.2 ⟨e, he, heq.symm.trans ha⟩)
      rw [hnone, ha, beq_self_eq_true]
      exact update_self ..
    · rw [beq_false_of_ne ha, update_of_ne ha]

theorem Follows.trans {c c1 c2 : CachedDB F} (h1 : Follows c c1) (h2 : Follows c1 c2) :
    Follows c c2 :=
  ⟨h2.coherent, h1.advances.trans h2.advances⟩

namespace Coherent

variable {c c' : CachedDB F} {address : Bytes} {h : Handler F}

section
variable (hc : Coherent c)
include hc

theorem refl : Follows c c := ⟨hc, .refl hc.synced⟩

theorem lookup (hl : c.cache.lookup address = some h) : Fresh c.db address h := by
  obtain ⟨l1, l2, hcache, -⟩ := lookup_eq_some_iff.1 hl
  exact hc.fresh (address, h) (hcache ▸ mem_append_right _ mem_cons_self)

theorem gives (hg : Gives c address h c') : Follows c c' ∧ Fresh c'.db address h := by
  cases hg with
  | cached hl => exact ⟨hc.refl, hc.lookup hl⟩
  | read hl hfresh hnamed =>
    refine ⟨⟨⟨hc.synced, ?_, fun e he => ?_, fun e he => ?_⟩, .refl hc.synced⟩, hfresh⟩
    · rw [CachedDB.handOut, map_append, nodup_append]
      refine ⟨hc.nodup, pairwise_singleton _ _, ?_⟩
      rintro a ha b hb rfl
      obtain ⟨e, he, rfl⟩ := mem_map.1 ha
      have hne := lookup_eq_none_iff.1 hl e he
      rw [map_cons, map_nil, mem_singleton] at hb
      simp [hb] at hne
    · rcases mem_append.1 he with he | he
      · exact hc.fresh e he
      · rw [mem_singleton.1 he]
        exact hfresh
    · rcases mem_append.1 he with he | he
      · exact hc.named e he
      · rw [mem_singleton.1 he]
        exact hnamed

theorem write (address : Bytes) (fields : F) (dirtyData : List (Bytes × Bytes)) :
    Follows c (c.write address fields dirtyData) := by
  have hkeys : (c.write address fields dirtyData).cache.map Prod.fst = c.cache.map Prod.fst := by
    simp only [CachedDB.write, map_map]
    rfl
  refine ⟨⟨hc.synced, hkeys ▸ hc.nodup, fun e he => ?_, fun e he => ?_⟩, .refl hc.synced⟩
  · obtain ⟨e0, he0, rfl⟩ := mem_map.1 he
    have hfresh := hc.fresh e0 he0
    split
    · exact hfresh
    · exact hfresh
  · have hmem : e.1 ∈ c.cache.map Prod.fst := hkeys ▸ mem_map_of_mem he
    obtain ⟨e0, he0, heq⟩ := mem_map.1 hmem
    exact heq ▸ hc.named e0 he0

theorem saveUser (hfresh : Fresh c.db address h) : Follows c (c.saveUser address h).1 := by
  obtain ⟨-, hadvances⟩ := saveAccount_spec hc.synced hfresh
  refine ⟨⟨hadvances.synced, ?_, fun e he => ?_, fun e he => ?_⟩, hadvances⟩
  · exact hc.nodup.sublist (Sublist.map _ filter_sublist)
  · obtain ⟨he, hne⟩ := mem_filter.1 he
    exact (hc.fresh e he).trans
      (rootHash_saveAccount hc.synced hfresh (by simpa using hne)).symm
  · exact hc.named e (mem_filter.1 he).1

end

theorem of_nil {db : AccountsDB F} (hs : Synced db.tries) : Coherent ⟨db, []⟩ :=
  ⟨hs, nodup_nil, fun _ he => absurd he not_mem_nil,
    fun _ he => absurd he not_mem_nil⟩

theorem reset (hc : Coherent c) : Follows c c.reset := ⟨.of_nil hc.synced, .refl hc.synced⟩

/-- `SaveAll` stores every handler of the cache and journals it. -/
theorem saveAll (hc : Coherent c) :
    Follows c c.saveAll ∧ ∀ a, c.saveAll.db.tries.mainTrie a =
      (c.cache.lookup a).elim (c.db.tries.mainTrie a) fun h => some (savedOf h) := by
  obtain ⟨hadvances, hmain⟩ := saveAll_loop hc.synced hc.nodup hc.fresh
  exact ⟨⟨.of_nil hadvances.synced, hadvances⟩, hmain⟩

/-- One operation keeps the cache coherent and journals what it writes. -/
theorem exec (hc : Coherent c) (op : SideOp F) : Follows c (c.exec op) := by
  cases op with
  | getExisting address =>
    rw [CachedDB.exec]
    cases hg : c.getExisting address with
    | error e => exact hc.refl
    | ok r => exact (hc.gives (getExisting_gives hg)).1
  | load new address =>
    rw [CachedDB.exec]
    cases hg : c.load new address with
    | error e => exact hc.refl
    | ok r => exact (hc.gives (load_gives hg)).1
  | write address fields dirtyData => exact hc.write address fields dirtyData
  | save address =>
    rw [CachedDB.exec]
    cases hl : c.cache.lookup address with
    | none => exact hc.refl
    | some h => exact hc.saveUser (hc.lookup hl)

end Coherent

/-- A side between two calls; with an empty journal it is as it was committed. -/
structure Sound (c : CachedDB F) : Prop extends Coherent c where
  committed : c.db.entries = [] → c.db.tries.mainTrie = c.db.committed

theorem Sound.follows {c c' : CachedDB F} (hc : Sound c) (h : Follows c c') : Sound c' := by
  refine ⟨h.coherent, fun hnil => ?_⟩
  obtain ⟨block, hentries, hundo⟩ := h.advances.journal
  rw [hnil, eq_comm, append_eq_nil_iff] at hentries
  obtain ⟨rfl, hnil0⟩ := hentries
  -- nothing is journaled, so undoing nothing gives the accounts of the earlier state
  have hsame : Same c'.db.tries c.db.tries := hundo c'.db.tries ⟨rfl, h.coherent.synced⟩
  rw [hsame.1, hc.committed hnil0, h.advances.committed]

end

end KleverGo.Transactions
