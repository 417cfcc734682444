import KleverGo.State.JournalRuns

/-!
# Code reference counts

A contract's code is stored once, under its hash, and counts the accounts that have that hash.
`References` says that the count is right: `saveCode` takes a reference from the old code and gives
one to the new, and a snapshot has the accounts and the code entries of one moment.

Principal results:

* `References.saveCode` — one save keeps the counts right;
* `Run.references` — **so does every run of saves and reverts to snapshots**;
* `code_references` — the counts, in terms of the accounts and of `GetCode`.
-/

namespace KleverGo.StateDB

open Finset UInt32 AccountsDB

variable {φ : Type}

/-- The stored accounts with a code hash. -/
def withCode (accounts : Finmap fun _ : Bytes => UserAccount φ) (codeHash : Bytes) : Finset Bytes :=
  accounts.keys.filter fun a => oldCodeHash (accounts.lookup a) = codeHash

/-- The entry of a code hash that a given number of accounts have. -/
def CodeEntry.CountsAs (hasher : CodeHasher) (codeHash : Bytes) (count : Nat) :
    Option CodeEntry → Prop
  | none => count = 0
  | some entry => entry.numReferences.toNat = count ∧ 0 < count ∧
      hasher.compute entry.code = codeHash

/-- Every code entry counts the accounts that have its hash. -/
def References (hasher : CodeHasher) (t : Tries φ) : Prop :=
  ∀ codeHash, codeHash ≠ [] →
    CodeEntry.CountsAs hasher codeHash (withCode t.accounts codeHash).card (t.codes.lookup codeHash)

section Accounts

variable {accounts : Finmap fun _ : Bytes => UserAccount φ} {addr : Bytes}

variable {codeHash : Bytes}

theorem mem_withCode {a : Bytes} (hne : codeHash ≠ []) :
    a ∈ withCode accounts codeHash ↔ oldCodeHash (accounts.lookup a) = codeHash := by
  rw [withCode, mem_filter, Finmap.mem_keys, ← Finmap.lookup_isSome]
  refine ⟨fun h => h.2, fun h => ⟨?_, h⟩⟩
  cases ha : accounts.lookup a with
  | none =>
    rw [ha] at h
    exact absurd h.symm hne
  | some account => rfl

theorem withCode_insert (account : UserAccount φ) (hne : codeHash ≠ []) :
    withCode (accounts.insert addr account) codeHash =
      if account.codeHash = codeHash then insert addr (withCode accounts codeHash)
      else (withCode accounts codeHash).erase addr := by
  ext a
  rw [mem_withCode hne, Finmap.lookup_insert_ite]
  by_cases ha : a = addr
  · subst ha
    by_cases hcode : account.codeHash = codeHash <;> simp [hcode, oldCodeHash]
  rw [if_neg ha]
  split
  · rw [mem_insert, mem_withCode hne]
    simp [ha]
  · rw [mem_erase, mem_withCode hne]
    simp [ha]

theorem withCode_insert_same {account : UserAccount φ}
    (hsame : account.codeHash = oldCodeHash (accounts.lookup addr)) (hne : codeHash ≠ []) :
    withCode (accounts.insert addr account) codeHash = withCode accounts codeHash := by
  rw [withCode_insert account hne]
  split
  · next hcode =>
    exact insert_eq_of_mem ((mem_withCode hne).2 (hsame ▸ hcode))
  · next hcode =>
    exact erase_eq_of_notMem fun hmem => hcode (hsame ▸ (mem_withCode hne).1 hmem)

end Accounts

/-! ## One save -/

variable {hasher : CodeHasher} {count : Nat} {entry : Option CodeEntry}

theorem CodeEntry.CountsAs.dropped {codeHash : Bytes}
    (h : CountsAs hasher codeHash (count + 1) entry) :
    CountsAs hasher codeHash count (dropped entry) := by
  cases entry with
  | none => cases h
  | some e =>
    obtain ⟨hcount, -, hcode⟩ := h
    by_cases hone : e.numReferences ≤ 1
    · rw [le_iff_toNat_le, toNat_one, hcount] at hone
      have hle : e.numReferences ≤ 1 := by
        rw [le_iff_toNat_le, toNat_one, hcount]; exact hone
      simp only [StateDB.dropped, hle, if_true, CountsAs]
      omega
    · have hle : (1 : UInt32) ≤ e.numReferences := by
        rw [le_iff_toNat_le, toNat_one, hcount]
        omega
      simp only [StateDB.dropped, hone, if_false, CountsAs]
      rw [le_iff_toNat_le, toNat_one, hcount] at hone
      rw [UInt32.toNat_sub_of_le _ _ hle, UInt32.toNat_one, hcount]
      exact ⟨rfl, by omega, hcode⟩

variable {code : Bytes}

theorem CodeEntry.CountsAs.raised (h : CountsAs hasher (hasher.compute code) count entry)
    (hroom : count + 1 < 2 ^ 32) :
    CountsAs hasher (hasher.compute code) (count + 1) (some (raised code entry)) := by
  cases entry with
  | none =>
    obtain rfl : count = 0 := h
    exact ⟨rfl, Nat.succ_pos _, rfl⟩
  | some e =>
    obtain ⟨hcount, -, hcode⟩ := h
    refine ⟨?_, Nat.succ_pos _, hcode⟩
    rw [StateDB.raised, Option.getD_some]
    rw [UInt32.toNat_add, UInt32.toNat_one, hcount, Nat.mod_eq_of_lt hroom]

variable {t : Tries φ}

theorem References.changeCode (h : References hasher t) {addr : Bytes} {account : UserAccount φ}
    (haccount : account.codeHash = newCodeHash hasher code)
    (hne : oldCodeHash (t.accounts.lookup addr) ≠ newCodeHash hasher code)
    (hroom : ∀ codeHash, codeHash ≠ [] →
      (withCode (t.accounts.insert addr account) codeHash).card < 2 ^ 32) :
    References hasher { t with
      accounts := t.accounts.insert addr account
      codes := updateNewCodeEntry (newCodeHash hasher code) code
        (dropReference (oldCodeHash (t.accounts.lookup addr)) t.codes) } := by
  intro codeHash hnil
  have hcount := h codeHash hnil
  have hroom := hroom codeHash hnil
  rw [withCode_insert account hnil, haccount] at hroom ⊢
  have hdropped : codeHash ≠ newCodeHash hasher code →
      (updateNewCodeEntry (newCodeHash hasher code) code (dropReference
        (oldCodeHash (t.accounts.lookup addr)) t.codes)).lookup codeHash =
      if codeHash = oldCodeHash (t.accounts.lookup addr) then dropped (t.codes.lookup codeHash)
      else t.codes.lookup codeHash := by
    intro hother
    by_cases hcode : code = []
    · rw [updateNewCodeEntry, if_pos hcode, lookup_dropReference]
      split
      · next heq => rw [heq]
      · rfl
    · rw [lookup_updateNewCodeEntry _ _ _ _ hcode, if_neg hother, lookup_dropReference]
      split
      · next heq => rw [heq]
      · rfl
  by_cases hnew : newCodeHash hasher code = codeHash
  · -- the new code
    subst hnew
    have hcode : code ≠ [] := fun heq => hnil (if_pos heq)
    have hfresh : addr ∉ withCode t.accounts (newCodeHash hasher code) :=
      fun hmem => hne ((mem_withCode hnil).1 hmem)
    rw [if_pos rfl, card_insert_of_notMem hfresh] at hroom ⊢
    rw [lookup_updateNewCodeEntry _ _ _ _ hcode, if_pos rfl, lookup_dropReference,
      if_neg (Ne.symm hne)]
    rw [newCodeHash_of_ne hcode] at hcount hroom ⊢
    exact hcount.raised hroom
  · rw [if_neg hnew, hdropped (Ne.symm hnew)]
    by_cases hold : codeHash = oldCodeHash (t.accounts.lookup addr)
    · -- the old code
      have hmem : addr ∈ withCode t.accounts codeHash := (mem_withCode hnil).2 hold.symm
      have hpos : 0 < (withCode t.accounts codeHash).card := card_pos.2 ⟨addr, hmem⟩
      rw [if_pos hold, card_erase_of_mem hmem]
      refine CodeEntry.CountsAs.dropped ?_
      rwa [Nat.sub_add_cancel hpos]
    · -- any other code
      have hmem : addr ∉ withCode t.accounts codeHash :=
        fun hmem => hold ((mem_withCode hnil).1 hmem).symm
      rwa [if_neg hold, erase_eq_of_notMem hmem]

theorem saveAccount_accounts (hasher : CodeHasher) (addr : Bytes) (s : AccountsDB φ)
    (h : Handler φ) : ∃ account : UserAccount φ,
      (s.saveAccount hasher addr h).tries.accounts = s.tries.accounts.insert addr account ∧
      account.codeHash =
        (saveCode hasher (s.tries.accounts.lookup addr) h s.tries.codes).1 := by
  unfold saveAccount
  dsimp only
  split
  · exact ⟨_, rfl, rfl⟩
  · unfold ensureDataTrie
    split <;> exact ⟨_, rfl, rfl⟩

theorem References.of_maps {u : Tries φ} (h : References hasher t)
    (haccounts : u.accounts = t.accounts) (hcodes : u.codes = t.codes) : References hasher u := by
  intro codeHash hne
  rw [haccounts, hcodes]
  exact h codeHash hne

theorem References.saveAccount {s : AccountsDB φ} {h : Handler φ} {addr : Bytes}
    (href : References hasher s.tries)
    (hloaded : h.account.codeHash = oldCodeHash (s.tries.accounts.lookup addr))
    (hroom : ∀ codeHash, codeHash ≠ [] →
      (withCode (s.saveAccount hasher addr h).tries.accounts codeHash).card < 2 ^ 32) :
    References hasher (s.saveAccount hasher addr h).tries := by
  obtain ⟨account, haccounts, hcode⟩ := saveAccount_accounts hasher addr s h
  obtain ⟨-, -, -, -, hcodes⟩ := saveAccount_prepared hasher addr s h
  rw [haccounts] at hroom
  -- a save that changes no code hash leaves the counts
  have hkept : account.codeHash = oldCodeHash (s.tries.accounts.lookup addr) →
      (s.saveAccount hasher addr h).tries.codes = s.tries.codes →
      References hasher (s.saveAccount hasher addr h).tries := by
    intro hsame hcodes codeHash hne
    rw [haccounts, hcodes, withCode_insert_same hsame hne]
    exact href codeHash hne
  unfold StateDB.saveCode at hcode hcodes
  cases hnew : h.code with
  | none =>
    rw [hnew] at hcode hcodes
    exact hkept (hcode.trans hloaded) hcodes
  | some code =>
    rw [hnew] at hcode hcodes
    dsimp only at hcode hcodes
    split at hcode
    · next hsame =>
      rw [if_pos hsame] at hcodes
      exact hkept (hcode.trans hsame.symm) hcodes
    · next hne =>
      rw [if_neg hne] at hcodes
      exact (href.changeCode hcode hne hroom).of_maps haccounts hcodes

/-! ## Runs -/

/-- Loads, and saves after which fewer than `2^32` accounts share a code. -/
def SavesCode (setup : Setup φ) (s : AccountsDB φ) : Op φ → Prop
  | .load _ => True
  | .save addr changes => ∀ codeHash, codeHash ≠ [] →
      (withCode (s.exec setup (.save addr changes)).tries.accounts codeHash).card < 2 ^ 32
  | _ => False

section Runs

variable {setup : Setup φ} {base s : AccountsDB φ} {snapshots : List (AccountsDB φ)}

/-- Where the counts are right, one that has room left in the accounts fits its counter. -/
theorem References.fits {hasher : CodeHasher} {h : Handler φ} {addr : Bytes}
    (href : References hasher s.tries)
    (hroom : ∀ codeHash, codeHash ≠ [] →
      (withCode (s.saveAccount hasher addr h).tries.accounts codeHash).card < 2 ^ 32) :
    h.Fits hasher addr s := by
  intro code entry hcode hnil hchanged hentry
  obtain ⟨account, haccounts, haccount⟩ := saveAccount_accounts hasher addr s h
  have hnew : newCodeHash hasher code = hasher.compute code := newCodeHash_of_ne hnil
  have hstored : account.codeHash = hasher.compute code := by
    rw [haccount, saveCode, hcode]
    dsimp only
    rw [hnew, if_neg hchanged]
  have hne := hasher.compute_ne_nil code
  have hcount := href (hasher.compute code) hne
  have hfresh : addr ∉ withCode s.tries.accounts (hasher.compute code) :=
    fun hmem => hchanged ((mem_withCode hne).1 hmem)
  have hcard := hroom (hasher.compute code) hne
  rw [haccounts, withCode_insert account hne, if_pos hstored, card_insert_of_notMem hfresh] at hcard
  rw [hentry] at hcount
  rw [hcount.1]
  exact hcard

theorem savesCode_step (href : References setup.hasher s.tries) {op : Op φ}
    (hop : SavesCode setup s op) :
    op.Fits setup s ∧ References setup.hasher (s.exec setup op).tries := by
  cases op with
  | load addr =>
    obtain ⟨haccounts, hcodes⟩ := (loadAccount_outcome setup s addr).tries
    exact ⟨trivial, href.of_maps haccounts hcodes⟩
  | save addr changes =>
    have hout := loadAccount_outcome setup s addr
    simp only [SavesCode, exec] at hop
    simp only [Op.Fits, exec]
    cases hpair : s.loadAccount setup.db setup.blank addr with
    | mk result s1 =>
      rw [hpair] at hout hop
      have href1 : References setup.hasher s1.tries := href.of_maps hout.tries.1 hout.tries.2
      cases result with
      | error e => exact ⟨fun h s' heq => absurd heq (by simp), href1⟩
      | ok h =>
        refine ⟨fun h' s' heq => ?_, href1.saveAccount ?_ hop⟩
        · cases heq
          exact href1.fits hop
        · change h.account.codeHash = _
          rw [hout.account]
          cases s1.tries.accounts.lookup addr <;> rfl
  | remove addr => exact hop.elim
  | removeCode addr => exact hop.elim

/-- Along a run of saves and reverts the counts are right, now and in every snapshot. -/
theorem Run.references (hbase : Fresh base) (href : References setup.hasher base.tries)
    (hrun : Run setup (SavesCode setup) base s snapshots) :
    Tracks base s snapshots ∧ References setup.hasher s.tries ∧
      ∀ t ∈ snapshots, References setup.hasher t.tries := by
  induction hrun with
  | start => exact ⟨hbase.tracks, href, fun t ht => absurd ht List.not_mem_nil⟩
  | step _ hallowed ih =>
    obtain ⟨htracks, hnow, hsnapshots⟩ := ih
    obtain ⟨hfits, hnext⟩ := savesCode_step hnow hallowed
    exact ⟨htracks.step hfits, hnext, hsnapshots⟩
  | journalLen _ ih =>
    obtain ⟨htracks, hnow, hsnapshots⟩ := ih
    refine ⟨htracks.journalLen, hnow, fun t ht => ?_⟩
    rcases List.mem_cons.1 ht with rfl | ht
    · exact hnow
    · exact hsnapshots t ht
  | revertToSnapshot _ ht ih =>
    obtain ⟨htracks, -, hsnapshots⟩ := ih
    have hmem := List.mem_cons_of_mem base ht
    obtain ⟨-, haccounts, hcodes⟩ := htracks.restores_mainTrie hbase.entries hmem
    exact ⟨htracks.revertToSnapshot hbase.entries hmem, (hsnapshots _ ht).of_maps haccounts hcodes,
      fun t ht => hsnapshots t (List.mem_filter.1 ht).1⟩

/-- In every run of loads, saves and reverts to snapshots, a code entry is there exactly when an
account has its hash, it counts these accounts, and `GetCode` returns the code with that hash. -/
theorem code_references (hbase : Fresh base) (href : References setup.hasher base.tries)
    (hrun : Run setup (SavesCode setup) base s snapshots) (codeHash : Bytes) (hne : codeHash ≠ []) :
    ((s.tries.codes.lookup codeHash).isSome ↔
        ∃ addr account, s.tries.accounts.lookup addr = some account ∧
          account.codeHash = codeHash) ∧
      ∀ entry, s.tries.codes.lookup codeHash = some entry →
        entry.numReferences.toNat = (withCode s.tries.accounts codeHash).card ∧
        setup.hasher.compute (s.getCode codeHash) = codeHash := by
  obtain ⟨-, hnow, -⟩ := hrun.references hbase href
  have hcount := hnow codeHash hne
  have hmem : (withCode s.tries.accounts codeHash).Nonempty ↔
      ∃ addr account, s.tries.accounts.lookup addr = some account ∧
        account.codeHash = codeHash := by
    refine exists_congr fun addr => ?_
    rw [mem_withCode hne]
    cases hlookup : s.tries.accounts.lookup addr with
    | none => simp [oldCodeHash, Ne.symm hne]
    | some account => simp [oldCodeHash]
  rw [← hmem, ← card_pos]
  cases hentry : s.tries.codes.lookup codeHash with
  | none =>
    rw [hentry] at hcount
    refine ⟨?_, fun entry h => by cases h⟩
    simp only [Option.isSome_none, Bool.false_eq_true, false_iff]
    exact fun hpos => absurd hcount (Nat.ne_of_gt hpos)
  | some entry =>
    rw [hentry] at hcount
    obtain ⟨hrefs, hpos, hcode⟩ := hcount
    refine ⟨by simp [hpos], fun e he => ?_⟩
    cases he
    refine ⟨hrefs, ?_⟩
    rw [getCode, if_neg hne, hentry]
    exact hcode

end Runs

def emptyDB : AccountsDB Unit := ⟨⟨∅, ∅, fun _ => ∅, ∅⟩, ∅, 0, [], ∅, ∅⟩

/-- The database holds no data trie. -/
def markingSetup : Setup Unit := ⟨markingHasher, fun _ => false, ()⟩

theorem emptyDB_fresh : Fresh emptyDB :=
  ⟨rfl, rfl, ⟨rfl, fun h entry hentry => absurd hentry (by simp [emptyDB])⟩, rfl, rfl⟩

def deploy (addr code : Bytes) : Op Unit := .save addr ⟨(), some code, ∅⟩

def sharedDB : AccountsDB Unit :=
  (emptyDB.exec markingSetup (deploy [1] [7])).exec markingSetup (deploy [2] [7])

/-- The first account has changed its code. -/
def changedDB : AccountsDB Unit := sharedDB.exec markingSetup (deploy [1] [8])

theorem savesCode_deploy {s : AccountsDB Unit} {addr code : Bytes}
    (h : (s.exec markingSetup (deploy addr code)).tries.accounts.keys.card < 2 ^ 32) :
    SavesCode markingSetup s (deploy addr code) :=
  fun _ _ => Nat.lt_of_le_of_lt (card_filter_le _ _) h

theorem code_references_deploy :
    let s := (changedDB.revertToSnapshot sharedDB.journalLen).2
    (changedDB.tries.codes.lookup [0, 7]).map CodeEntry.numReferences = some 1 ∧
      (s.tries.codes.lookup [0, 7]).map CodeEntry.numReferences = some 2 ∧
      ((s.tries.codes.lookup [0, 7]).isSome ↔
        ∃ addr account, s.tries.accounts.lookup addr = some account ∧
          account.codeHash = [0, 7]) ∧
      ∀ entry, s.tries.codes.lookup [0, 7] = some entry →
        entry.numReferences.toNat = (withCode s.tries.accounts [0, 7]).card ∧
        markingSetup.hasher.compute (s.getCode [0, 7]) = [0, 7] := by
  have href : References markingSetup.hasher emptyDB.tries := fun codeHash _ => rfl
  have hshared : Run markingSetup (SavesCode markingSetup) emptyDB sharedDB [] :=
    .step (.step .start (savesCode_deploy (by decide))) (savesCode_deploy (by decide))
  have hchanged : Run markingSetup (SavesCode markingSetup) emptyDB changedDB [sharedDB] :=
    .step hshared.journalLen (savesCode_deploy (by decide))
  exact ⟨by decide, by decide, code_references emptyDB_fresh href
    (hchanged.revertToSnapshot List.mem_cons_self) [0, 7] (List.cons_ne_nil _ _)⟩

/-- Reverting to a length inside a save: the account keeps a code hash whose entry is gone. -/
theorem revert_inside_save :
    let s := ((emptyDB.exec markingSetup (deploy [1] [7])).revertToSnapshot 1).2
    s.tries.accounts.lookup [1] = some ⟨none, [0, 7], ()⟩ ∧
      s.tries.codes.lookup [0, 7] = none := by
  decide

end KleverGo.StateDB
