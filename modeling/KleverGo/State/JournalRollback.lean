import KleverGo.State.AccountsDB

/-!
# Rolling the accounts database back

What one operation journals undoes it (`Extends`): the entries it appends, reverted newest first,
give back the accounts, the code entries and the data tries that were there before.  Reference
counts come back as long as none wraps around (`Counted`).

Principal results:

* `undo_saveCode`, `undo_removal` — reverting a code entry restores both code entries it is about;
* `loadAccount_extends`, `saveAccount_extends`, `Removal.extends` — one step;
* `undoAll_alike` — reverting older entries does not see what was undone before.
-/

namespace KleverGo.StateDB

open Journal JournalEntry AccountsDB Finmap List UInt32 Function

variable {φ : Type}

/-! ## Reference counts -/

/-- The entry that is left when one reference is taken away. -/
def dropped : Option CodeEntry → Option CodeEntry
  | none => none
  | some entry =>
    if entry.numReferences ≤ 1 then none
    else some { entry with numReferences := entry.numReferences - 1 }

/-- The entry that is there when one reference is added. -/
def raised (code : Bytes) (entry : Option CodeEntry) : CodeEntry :=
  { entry.getD ⟨code, 0⟩ with numReferences := (entry.getD ⟨code, 0⟩).numReferences + 1 }

theorem lookup_dropReference (h k : Bytes) (codes : Finmap fun _ : Bytes => CodeEntry) :
    (dropReference h codes).lookup k = if k = h then dropped (codes.lookup h) else codes.lookup k := by
  unfold dropReference
  cases hentry : codes.lookup h with
  | none =>
    by_cases hk : k = h
    · subst hk
      rw [hentry, if_pos rfl, dropped]
    · rw [if_neg hk]
  | some entry =>
    by_cases hone : entry.numReferences ≤ 1
    · simp only [hone, if_true, dropped, lookup_erase_ite]
    · simp only [hone, if_false, dropped, lookup_insert_ite]

theorem lookup_updateNewCodeEntry (h code k : Bytes) (codes : Finmap fun _ : Bytes => CodeEntry)
    (hcode : code ≠ []) : (updateNewCodeEntry h code codes).lookup k =
      if k = h then some (raised code (codes.lookup h)) else codes.lookup k := by
  rw [updateNewCodeEntry, if_neg hcode, lookup_insert_ite]
  rfl

theorem lookup_saveCodeEntry (h k : Bytes) (entry : Option CodeEntry)
    (codes : Finmap fun _ : Bytes => CodeEntry) :
    (saveCodeEntry h entry codes).lookup k = if k = h then entry else codes.lookup k := by
  cases entry with
  | none => exact lookup_erase_ite codes h k
  | some entry => exact lookup_insert_ite codes h k entry

/-- An entry that has references, and room for one more. -/
def CodeEntry.Roomy (entry : CodeEntry) : Prop :=
  1 ≤ entry.numReferences.toNat ∧ entry.numReferences.toNat + 1 < 2 ^ 32

theorem dropped_raised (code : Bytes) {entry : Option CodeEntry}
    (hentry : ∀ e, entry = some e → e.Roomy) : dropped (some (raised code entry)) = entry := by
  cases entry with
  | none => rfl
  | some e =>
    obtain ⟨hone, hroom⟩ := hentry e rfl
    have hsum : (e.numReferences + 1).toNat = e.numReferences.toNat + 1 := by
      rw [UInt32.toNat_add, UInt32.toNat_one, Nat.mod_eq_of_lt hroom]
    have hmany : ¬ e.numReferences + 1 ≤ 1 := by
      rw [le_iff_toNat_le, hsum, toNat_one]
      omega
    simp only [dropped, raised, Option.getD_some, hmany, if_false, UInt32.add_sub_cancel]

/-- Every code entry is under a hash and has references. -/
structure Counted (codes : Finmap fun _ : Bytes => CodeEntry) : Prop where
  nil : codes.lookup [] = none
  pos : ∀ h entry, codes.lookup h = some entry → 1 ≤ entry.numReferences.toNat

variable {codes : Finmap fun _ : Bytes => CodeEntry}

theorem Counted.dropReference (h : Counted codes) (hash : Bytes) :
    Counted (dropReference hash codes) where
  nil := by
    rw [lookup_dropReference]
    split
    · next heq => rw [← heq, h.nil]; rfl
    · exact h.nil
  pos k entry hk := by
    rw [lookup_dropReference] at hk
    split at hk
    · cases hold : codes.lookup hash with
      | none => simp [hold, dropped] at hk
      | some e =>
        by_cases hone : e.numReferences ≤ 1
        · simp [hold, dropped, hone] at hk
        rw [le_iff_toNat_le, toNat_one, Nat.not_le] at hone
        have hle : (1 : UInt32) ≤ e.numReferences := by
          rw [le_iff_toNat_le, toNat_one]; omega
        have hone' : ¬ e.numReferences ≤ 1 := by
          rw [le_iff_toNat_le, toNat_one]; omega
        simp only [hold, dropped, hone', if_false, Option.some.injEq] at hk
        rw [← hk]
        rw [UInt32.toNat_sub_of_le _ _ hle, UInt32.toNat_one]
        omega
    · exact h.pos k entry hk

theorem undo_removeCode (h : Counted codes) {hash : Bytes} (hne : hash ≠ []) :
    dropReference [] (saveCodeEntry hash (codes.lookup hash) (dropReference hash codes)) = codes := by
  refine ext_lookup fun k => ?_
  rw [lookup_dropReference, lookup_saveCodeEntry, lookup_saveCodeEntry, lookup_dropReference,
    lookup_dropReference]
  by_cases hnil : k = []
  · subst hnil
    simp [Ne.symm hne, h.nil, dropped]
  · by_cases hk : k = hash
    · subst hk
      simp [hnil]
    · simp [hk, hnil]

theorem dropReference_nil (h : Counted codes) : dropReference [] codes = codes := by
  unfold dropReference
  rw [h.nil]

/-- Reverting the entry of a changed code: the old entry is put back and the new one loses the
reference it got. -/
theorem undo_changeCode (h : Counted codes) {oldHash newHash code : Bytes} (hne : oldHash ≠ newHash)
    (hcode : code ≠ []) (hroom : ∀ e, codes.lookup newHash = some e → e.Roomy) :
    dropReference newHash
      (if oldHash = [] then updateNewCodeEntry newHash code (dropReference oldHash codes)
        else saveCodeEntry oldHash (codes.lookup oldHash)
          (updateNewCodeEntry newHash code (dropReference oldHash codes))) = codes := by
  have hkept : (dropReference oldHash codes).lookup newHash = codes.lookup newHash := by
    rw [lookup_dropReference, if_neg (Ne.symm hne)]
  refine ext_lookup fun k => ?_
  rw [lookup_dropReference]
  by_cases hold : oldHash = []
  · subst hold
    rw [if_pos rfl, lookup_updateNewCodeEntry _ _ _ _ hcode, if_pos rfl, hkept,
      lookup_updateNewCodeEntry _ _ _ _ hcode, dropReference_nil h]
    by_cases hk : k = newHash
    · rw [if_pos hk, hk, dropped_raised code hroom]
    · rw [if_neg hk, if_neg hk]
  · rw [if_neg hold, lookup_saveCodeEntry, if_neg (Ne.symm hne),
      lookup_updateNewCodeEntry _ _ _ _ hcode, if_pos rfl, hkept, lookup_saveCodeEntry,
      lookup_updateNewCodeEntry _ _ _ _ hcode, lookup_dropReference]
    by_cases hk : k = newHash
    · rw [if_pos hk, hk, dropped_raised code hroom]
    · by_cases hko : k = oldHash
      · rw [if_neg hk, if_pos hko, hko]
      · rw [if_neg hk, if_neg hko, if_neg hk, lookup_dropReference, if_neg hko]

/-! ## Reverting entries -/

/-- The same main trie, and the same data tries below `k`. -/
structure Alike (k : Nat) (u v : Tries φ) : Prop where
  accounts : u.accounts = v.accounts
  codes : u.codes = v.codes
  heap : ∀ p < k, u.heap p = v.heap p

theorem Alike.refl (k : Nat) (u : Tries φ) : Alike k u u := ⟨rfl, rfl, fun _ _ => rfl⟩

/-- The data trie an entry writes is below `k`. -/
def JournalEntry.Below (k : Nat) : JournalEntry φ → Prop
  | .accountDataTrieUpdates _ _ dataTrie _ => dataTrie < k
  | _ => True

variable {e : JournalEntry φ} {k : Nat}

theorem JournalEntry.Below.mono {j : Nat} (h : e.Below j) (hjk : j ≤ k) : e.Below k := by
  cases e with
  | accountDataTrieUpdates _ _ p _ => exact Nat.lt_of_lt_of_le h hjk
  | _ => trivial

variable {p : Nat}

theorem revert_heap_of_le (he : e.Below k) (hp : k ≤ p) (t : Tries φ) :
    (e.revert t).heap p = t.heap p := by
  cases e with
  | accountDataTrieUpdates _ _ q _ =>
    exact update_of_ne (Nat.ne_of_gt (Nat.lt_of_lt_of_le he hp)) _ _
  | code oldEntry oldHash newHash =>
    simp only [revert]
    split <;> rfl
  | _ => rfl

variable {u v : Tries φ}

theorem revert_alike (he : e.Below k) (h : Alike k u v) : Alike k (e.revert u) (e.revert v) := by
  cases e with
  | account a old => exact ⟨congrArg (·.insert a old) h.accounts, h.codes, h.heap⟩
  | accountCreation a => exact ⟨congrArg (·.erase a) h.accounts, h.codes, h.heap⟩
  | accountDataTrieUpdates a acc p updates =>
    have hp : u.heap p = v.heap p := h.heap p he
    refine ⟨?_, h.codes, fun q hq => ?_⟩
    · simp only [revert, Tries.saveAccountToTrie, Tries.writeData, h.accounts, hp, update_self]
    · simp only [revert, Tries.saveAccountToTrie, Tries.writeData, update_apply, hp, h.heap q hq]
  | accountDataTrieRemove r => exact ⟨h.accounts, h.codes, h.heap⟩
  | code oldEntry oldHash newHash =>
    simp only [revert]
    split
    · exact h
    · exact ⟨h.accounts, by simp only [h.codes], h.heap⟩

variable {es : List (JournalEntry φ)}

theorem undoAll_alike (hes : ∀ e ∈ es, e.Below k) (h : Alike k u v) :
    Alike k (undoAll revert es u) (undoAll revert es v) := by
  induction es generalizing u v with
  | nil => exact h
  | cons e rest ih =>
    exact ih (fun e' he' => hes e' (mem_cons_of_mem _ he'))
      (revert_alike (hes e mem_cons_self) h)

theorem undoAll_heap_of_le (hes : ∀ e ∈ es, e.Below k) (hp : k ≤ p) (t : Tries φ) :
    (undoAll revert es t).heap p = t.heap p := by
  induction es generalizing t with
  | nil => rfl
  | cons e rest ih =>
    have hrest := ih (fun e' he' => hes e' (mem_cons_of_mem _ he')) (e.revert t)
    exact hrest.trans (revert_heap_of_le (hes e mem_cons_self) hp t)

theorem undoAll_append (xs ys : List (JournalEntry φ)) (t : Tries φ) :
    undoAll revert (xs ++ ys) t =
      undoAll revert ys (undoAll revert xs t) :=
  foldl_append

/-- Reverting the first entry of a save gives the old account back, whatever the address has by
then. -/
theorem revert_accountEntry {accounts : Finmap fun _ : Bytes => UserAccount φ} {addr : Bytes}
    {t : Tries φ} (h : ∀ a, a ≠ addr → t.accounts.lookup a = accounts.lookup a) :
    (accountEntry addr (accounts.lookup addr)).revert t = { t with accounts := accounts } := by
  have hlookup : ((accountEntry addr (accounts.lookup addr)).revert t).accounts = accounts := by
    refine ext_lookup fun a => ?_
    cases hold : accounts.lookup addr with
    | none =>
      simp only [accountEntry, revert, lookup_erase_ite]
      split
      · next ha => rw [ha, hold]
      · next ha => exact h a ha
    | some old =>
      simp only [accountEntry, revert, Tries.saveAccountToTrie, lookup_insert_ite]
      split
      · next ha => rw [ha, hold]
      · next ha => exact h a ha
  cases hold : accounts.lookup addr <;> rw [hold] at hlookup <;>
    simp only [accountEntry, revert, Tries.saveAccountToTrie] at hlookup ⊢ <;>
    rw [hlookup]

/-! ## One step -/

/-- `s'` comes from `s` by an operation that journaled `es`, and reverting `es` leads back. -/
structure Extends (s s' : AccountsDB φ) (es : List (JournalEntry φ)) : Prop where
  entries : s'.entries = s.entries ++ es
  undone : Alike s.next (undoAll revert es.reverse s'.tries) s.tries
  next_le : s.next ≤ s'.next
  below : ∀ e ∈ es, e.Below s'.next
  last : s'.lastAccounts = s.lastAccounts ∧ s'.lastCodes = s.lastCodes

theorem Extends.refl (s : AccountsDB φ) : Extends s s [] :=
  ⟨(append_nil _).symm, .refl _ _, le_rfl, fun _ h => absurd h not_mem_nil, rfl, rfl⟩

section Steps

variable {hasher : CodeHasher} {db : Contents → Bool} {blank : φ} {addr : Bytes}
  {s : AccountsDB φ} {h : Handler φ}

theorem newDataTrie_extends (contents : Contents) : Extends s (s.newDataTrie addr contents) [] := by
  refine ⟨(append_nil _).symm, ⟨rfl, rfl, fun p hp => ?_⟩, Nat.le_succ _,
    fun _ h => absurd h not_mem_nil, rfl, rfl⟩
  exact update_of_ne (Nat.ne_of_lt hp) _ _

theorem loadAccount_extends : Extends s (s.loadAccount db blank addr).2 [] := by
  unfold loadAccount
  split
  · exact .refl s
  split
  · exact .refl s
  · next account _ =>
    have hload : Extends s (s.loadDataTrie db addr account).2 [] := by
      unfold loadDataTrie
      split
      · exact .refl s
      split
      · exact .refl s
      · split
        · exact newDataTrie_extends _
        · exact .refl s
    split <;> next heq => rw [heq] at hload; exact hload

/-- The reference that a save adds still fits the counter. -/
def Handler.Fits (hasher : CodeHasher) (h : Handler φ) (addr : Bytes) (s : AccountsDB φ) : Prop :=
  ∀ code entry, h.code = some code → code ≠ [] →
    oldCodeHash (s.tries.accounts.lookup addr) ≠ hasher.compute code →
    s.tries.codes.lookup (hasher.compute code) = some entry →
      entry.numReferences.toNat + 1 < 2 ^ 32

theorem newCodeHash_of_ne {code : Bytes} (hcode : code ≠ []) :
    newCodeHash hasher code = hasher.compute code := if_neg hcode

section
variable (hcounted : Counted s.tries.codes) (hfits : h.Fits hasher addr s)
include hcounted hfits

/-- Reverting what `saveCode` journals restores the code entries. -/
theorem undo_saveCode (t : Tries φ) :
    undoAll revert
        (saveCode hasher (s.tries.accounts.lookup addr) h s.tries.codes).2.2.reverse
        { t with
          codes := (saveCode hasher (s.tries.accounts.lookup addr) h s.tries.codes).2.1 } =
      { t with codes := s.tries.codes } := by
  unfold saveCode
  split
  · rfl
  next code hcode =>
  split
  · rfl
  next hne =>
  simp only [reverse_singleton, undoAll, foldl_cons, foldl_nil, revert, if_neg hne]
  by_cases hnil : code = []
  · -- the code is cleared: there is no new entry
    subst hnil
    have hnew : newCodeHash hasher [] = [] := if_pos rfl
    rw [hnew] at hne ⊢
    rw [updateNewCodeEntry, if_pos rfl, if_neg hne, undo_removeCode hcounted hne]
  · have hroom : ∀ e, s.tries.codes.lookup (newCodeHash hasher code) = some e → e.Roomy := by
      intro e he
      rw [newCodeHash_of_ne hnil] at he hne
      exact ⟨hcounted.pos _ e he, hfits code e hcode hnil hne he⟩
    rw [undo_changeCode hcounted hne hnil hroom]

theorem Counted.saveCode :
    Counted (saveCode hasher (s.tries.accounts.lookup addr) h s.tries.codes).2.1 := by
  unfold StateDB.saveCode
  split
  · exact hcounted
  next code hcode =>
  split
  · exact hcounted
  next hne =>
  have hdrop := hcounted.dropReference (oldCodeHash (s.tries.accounts.lookup addr))
  by_cases hnil : code = []
  · simpa only [updateNewCodeEntry, hnil, if_true] using hdrop
  constructor
  · rw [lookup_updateNewCodeEntry _ _ _ _ hnil, newCodeHash_of_ne hnil,
      if_neg (Ne.symm (hasher.compute_ne_nil code)), hdrop.nil]
  intro k entry hk
  rw [lookup_updateNewCodeEntry _ _ _ _ hnil] at hk
  split at hk
  · cases hk
    rw [lookup_dropReference, if_neg (Ne.symm hne), raised]
    cases hentry : s.tries.codes.lookup (newCodeHash hasher code) with
    | none => rfl
    | some e =>
      rw [newCodeHash_of_ne hnil] at hentry hne
      have hroom := hfits code e hcode hnil hne hentry
      rw [Option.getD_some, UInt32.toNat_add, UInt32.toNat_one, Nat.mod_eq_of_lt hroom]
      exact Nat.le_add_left _ _
  · exact hdrop.pos k entry hk

/-- Reverting the entries of a save: the code entries, then the data trie (if it was written), then
the account. -/
theorem undo_save (middle : List (JournalEntry φ)) (t : Tries φ) (hmiddle : ∀ a, a ≠ addr →
      (undoAll revert middle.reverse { t with codes := s.tries.codes }).accounts.lookup
        a = s.tries.accounts.lookup a) :
    undoAll revert
        ([accountEntry addr (s.tries.accounts.lookup addr)] ++ middle ++
          (saveCode hasher (s.tries.accounts.lookup addr) h s.tries.codes).2.2).reverse
        { t with codes := (saveCode hasher (s.tries.accounts.lookup addr) h s.tries.codes).2.1 } =
      { undoAll revert middle.reverse { t with codes := s.tries.codes } with
        accounts := s.tries.accounts } := by
  rw [reverse_append, undoAll_append, undo_saveCode hcounted hfits, reverse_append,
    undoAll_append, reverse_singleton]
  exact revert_accountEntry hmiddle

end

theorem ensureDataTrie_spec (addr : Bytes) (htrie : ∀ p, h.dataTrie = some p → p < s.next) :
    (s.ensureDataTrie addr h).1 < (s.ensureDataTrie addr h).2.next ∧
      s.next ≤ (s.ensureDataTrie addr h).2.next ∧
      (s.ensureDataTrie addr h).2.entries = s.entries ∧
      (s.ensureDataTrie addr h).2.tries.accounts = s.tries.accounts ∧
      ((s.ensureDataTrie addr h).2.lastAccounts = s.lastAccounts ∧
        (s.ensureDataTrie addr h).2.lastCodes = s.lastCodes) ∧
      ∀ p < s.next, (s.ensureDataTrie addr h).2.tries.heap p = s.tries.heap p := by
  unfold ensureDataTrie
  split
  · next p hp => exact ⟨htrie p hp, le_rfl, rfl, rfl, ⟨rfl, rfl⟩, fun _ _ => rfl⟩
  · refine ⟨Nat.lt_succ_self _, Nat.le_succ _, rfl, rfl, ⟨rfl, rfl⟩, fun p hp => ?_⟩
    exact update_of_ne (Nat.ne_of_lt hp) _ _

/-- Writing back the old values of a data trie restores every data trie. -/
theorem writeData_saved (t : Tries φ) (p : Nat) (updates : Finmap fun _ : Bytes => Option Bytes) :
    ((t.writeData p updates).writeData p ((t.heap p).saved updates)).heap = t.heap := by
  funext q
  simp only [Tries.writeData, update_apply, if_true, overwrite_saved]
  split
  · next heq => rw [heq]
  · rfl

theorem saveCode_below (old : Option (UserAccount φ)) (k : Nat) :
    ∀ e ∈ (saveCode hasher old h s.tries.codes).2.2, e.Below k := by
  unfold saveCode
  intro e he
  split at he
  · cases he
  · split at he
    · cases he
    · rw [mem_singleton.1 he]
      trivial

/-- The database as `saveDataTrie` has it before it writes: an account with dirty data has a data
trie. -/
def AccountsDB.prepared (s : AccountsDB φ) (addr : Bytes) (h : Handler φ) : AccountsDB φ :=
  if h.dirtyData = ∅ then s else (s.ensureDataTrie addr h).2

theorem saveAccount_undo (hcounted : Counted s.tries.codes) (hfits : h.Fits hasher addr s)
    (htrie : ∀ p, h.dataTrie = some p → p < s.next) :
    ∃ es, (s.saveAccount hasher addr h).entries = s.entries ++ es ∧
      (∀ e ∈ es, e.Below (s.saveAccount hasher addr h).next) ∧
      (undoAll revert es.reverse (s.saveAccount hasher addr h).tries).accounts =
        s.tries.accounts ∧
      (undoAll revert es.reverse (s.saveAccount hasher addr h).tries).codes =
        s.tries.codes ∧
      (undoAll revert es.reverse (s.saveAccount hasher addr h).tries).heap =
        (s.prepared addr h).tries.heap := by
  have hbelow : ∀ (k : Nat) (middle : List (JournalEntry φ)), (∀ e ∈ middle, e.Below k) →
      ∀ e ∈ [accountEntry addr (s.tries.accounts.lookup addr)] ++ middle ++
        (saveCode hasher (s.tries.accounts.lookup addr) h s.tries.codes).2.2, e.Below k := by
    intro k middle hmiddle e he
    rcases mem_append.1 he with he | he
    · rcases mem_append.1 he with he | he
      · rw [mem_singleton.1 he]
        cases s.tries.accounts.lookup addr <;> trivial
      · exact hmiddle e he
    · exact saveCode_below _ _ e he
  unfold saveAccount prepared
  dsimp only
  split
  · have hundo := undo_save hcounted hfits [] (s.tries.saveAccountToTrie
      addr { h.account with codeHash :=
        (saveCode hasher (s.tries.accounts.lookup addr) h s.tries.codes).1 }) fun a ha => by
        exact lookup_insert_of_ne _ ha
    refine ⟨_, ?_, hbelow _ [] (fun _ he => absurd he not_mem_nil), ?_⟩
    · rw [append_nil, append_assoc]
    · exact hundo ▸ ⟨rfl, rfl, rfl⟩
  · obtain ⟨hlt, -, hentries, haccounts, -, -⟩ := ensureDataTrie_spec addr htrie
    set p := (s.ensureDataTrie addr h).1
    set d := (s.ensureDataTrie addr h).2
    set account : UserAccount φ := ⟨some ((d.tries.writeData p h.updates).heap p),
      (saveCode hasher (s.tries.accounts.lookup addr) h s.tries.codes).1, h.account.rest⟩
    have hundo := undo_save hcounted hfits
      [.accountDataTrieUpdates addr account p ((d.tries.heap p).saved h.updates)]
      ((d.tries.writeData p h.updates).saveAccountToTrie addr account) fun a ha => by
        refine (lookup_insert_of_ne _ ha).trans ((lookup_insert_of_ne _ ha).trans ?_)
        exact congrArg (·.lookup a) haccounts
    refine ⟨_, ?_, hbelow _ [.accountDataTrieUpdates addr account p
      ((d.tries.heap p).saved h.updates)] ?_, ?_⟩
    · rw [hentries, append_assoc]
      rfl
    · intro e he
      rw [mem_singleton.1 he]
      exact hlt
    · exact hundo ▸ ⟨rfl, rfl, writeData_saved d.tries p h.updates⟩

theorem prepared_spec (addr : Bytes) (htrie : ∀ p, h.dataTrie = some p → p < s.next) :
    s.next ≤ (s.prepared addr h).next ∧
      ∀ p < s.next, (s.prepared addr h).tries.heap p = s.tries.heap p := by
  unfold prepared
  split
  · exact ⟨le_rfl, fun _ _ => rfl⟩
  · obtain ⟨-, hnext, -, -, -, hheap⟩ := ensureDataTrie_spec addr htrie
    exact ⟨hnext, hheap⟩

theorem saveAccount_prepared (hasher : CodeHasher) (addr : Bytes) (s : AccountsDB φ)
    (h : Handler φ) :
    (s.saveAccount hasher addr h).next = (s.prepared addr h).next ∧
      (s.saveAccount hasher addr h).dataTries = (s.prepared addr h).dataTries ∧
      (s.saveAccount hasher addr h).lastAccounts = s.lastAccounts ∧
      (s.saveAccount hasher addr h).lastCodes = s.lastCodes ∧
      (s.saveAccount hasher addr h).tries.codes =
        (saveCode hasher (s.tries.accounts.lookup addr) h s.tries.codes).2.1 := by
  unfold saveAccount prepared
  dsimp only
  split
  · exact ⟨rfl, rfl, rfl, rfl, rfl⟩
  · unfold ensureDataTrie
    split <;> exact ⟨rfl, rfl, rfl, rfl, rfl⟩

theorem saveAccount_extends (hcounted : Counted s.tries.codes) (hfits : h.Fits hasher addr s)
    (htrie : ∀ p, h.dataTrie = some p → p < s.next) :
    ∃ es, Extends s (s.saveAccount hasher addr h) es := by
  obtain ⟨es, hentries, hbelow, haccounts, hcodes, hheap⟩ :=
    saveAccount_undo hcounted hfits htrie
  obtain ⟨hnext, hkept⟩ := prepared_spec addr htrie
  obtain ⟨hsame, -, hlastAccounts, hlastCodes, -⟩ :=
    saveAccount_prepared hasher addr s h
  exact ⟨es, hentries, ⟨haccounts, hcodes, fun p hp => by rw [hheap, hkept p hp]⟩, hsame ▸ hnext,
    hbelow, hlastAccounts, hlastCodes⟩

theorem revert_removedCode {codes : Finmap fun _ : Bytes => CodeEntry} (hcounted : Counted codes)
    (codeHash : Bytes) (t : Tries φ) :
    (JournalEntry.code (codes.lookup codeHash) codeHash []).revert
      { t with codes := dropReference codeHash codes } = { t with codes := codes } := by
  simp only [revert]
  by_cases hnil : codeHash = []
  · rw [if_pos hnil, hnil, dropReference_nil hcounted]
  · rw [if_neg hnil, if_neg hnil, undo_removeCode hcounted hnil]

/-- Reverting a removal, whatever has become of the account it is about. -/
theorem undo_removal (hcounted : Counted s.tries.codes) {account : UserAccount φ}
    (haccount : s.tries.accounts.lookup addr = some account) {t : Tries φ}
    (ht : ∀ a, a ≠ addr → t.accounts.lookup a = s.tries.accounts.lookup a) :
    undoAll revert [.code (s.tries.codes.lookup account.codeHash) account.codeHash [],
        .account addr account]
        { t with codes := dropReference account.codeHash s.tries.codes } =
      { t with accounts := s.tries.accounts, codes := s.tries.codes } := by
  have hlast := revert_accountEntry (t := { t with codes := s.tries.codes }) ht
  rw [haccount] at hlast
  change (JournalEntry.account addr account).revert ((JournalEntry.code _ _ _).revert _) = _
  rw [revert_removedCode hcounted]
  exact hlast

/-- What `RemoveAccountCode` and `RemoveAccount` can leave: nothing changed, the code removed, or the
account removed too. -/
inductive Removal (s : AccountsDB φ) (addr : Bytes) : AccountsDB φ → Prop where
  | refused : Removal s addr s
  | code {account : UserAccount φ} (haccount : s.tries.accounts.lookup addr = some account) :
      Removal s addr ((s.journalize (.account addr account)).removeCode account)
  | account {account : UserAccount φ} (haccount : s.tries.accounts.lookup addr = some account)
      (obsolete : Finset Contents) (more : List Contents) :
      Removal s addr { s with
        tries := { s.tries with
          accounts := s.tries.accounts.erase addr
          codes := dropReference account.codeHash s.tries.codes
          obsoleteDataTrieHashes := obsolete }
        entries := s.entries ++ ([.account addr account,
          .code (s.tries.codes.lookup account.codeHash) account.codeHash []] ++
            more.map .accountDataTrieRemove) }

theorem removeAccountCode_removal : Removal s addr (s.removeAccountCode addr).2 := by
  unfold removeAccountCode
  split
  · exact .refused
  · split
    · exact .refused
    · next haccount => exact .code haccount

theorem removeAccount_removal : Removal s addr (s.removeAccount db addr).2 := by
  unfold removeAccount
  split
  · exact .refused
  split
  · exact .refused
  next account haccount =>
  unfold removeDataTrie
  cases hroot : account.rootHash with
  | none =>
    have hremoved := Removal.account haccount s.tries.obsoleteDataTrieHashes []
    simpa [journalize, removeCode] using hremoved
  | some r =>
    dsimp only
    split_ifs
    · have hremoved := Removal.account haccount (insert r s.tries.obsoleteDataTrieHashes) [r]
      simpa [journalize, removeCode] using hremoved
    · exact .code haccount

theorem undoAll_accountDataTrieRemove (removed : List Contents) (t : Tries φ) :
    ∃ obsolete, undoAll revert (removed.map .accountDataTrieRemove) t =
      { t with obsoleteDataTrieHashes := obsolete } := by
  induction removed generalizing t with
  | nil => exact ⟨_, rfl⟩
  | cons r rest ih => exact ih _

theorem Removal.extends {s' : AccountsDB φ} (hremoval : Removal s addr s')
    (hcounted : Counted s.tries.codes) : ∃ es, Extends s s' es := by
  cases hremoval with
  | refused => exact ⟨[], .refl s⟩
  | code haccount =>
    refine ⟨_, append_assoc _ _ _, ?_, le_rfl, fun e he => ?_, rfl, rfl⟩
    · exact undo_removal hcounted haccount (t := s.tries) (fun _ _ => rfl) ▸ .refl _ _
    · simp only [cons_append, nil_append, mem_cons, not_mem_nil, or_false] at he
      rcases he with rfl | rfl <;> trivial
  | account haccount obsolete more =>
    refine ⟨_, rfl, ?_, le_rfl, fun e he => ?_, rfl, rfl⟩
    · obtain ⟨rest, hrest⟩ := undoAll_accountDataTrieRemove more.reverse _
      rw [reverse_append, undoAll_append, ← map_reverse, hrest]
      have hundo := undo_removal hcounted haccount (t := { s.tries with
        accounts := s.tries.accounts.erase addr
        obsoleteDataTrieHashes := rest }) fun a ha => lookup_erase_ne ha
      exact hundo ▸ ⟨rfl, rfl, fun _ _ => rfl⟩
    · simp only [mem_append, mem_cons, not_mem_nil, or_false, mem_map] at he
      rcases he with (rfl | rfl) | ⟨r, -, rfl⟩ <;> trivial

end Steps

end KleverGo.StateDB
