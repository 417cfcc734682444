import KleverGo.State.JournalRollback

/-!
# Runs of the accounts database with snapshots

A run starts right after `Commit` or `RecreateTrie`.  It loads, saves and removes accounts, asks for
`JournalLen` and goes back with `RevertToSnapshot` to a length it was given and has not gone back
past.  A saved account is one that was loaded from the current state and then changed.

Principal results:

* `exec_extends` — one operation;
* `Run.tracks`, `Tracks.restores_mainTrie` — **at every point of a run, reverting to a snapshot gives
  back the accounts and the code entries of the state in which `JournalLen` was asked**.
-/

namespace KleverGo.StateDB

open Journal AccountsDB List

variable {φ : Type}

/-- What the database is set up with: the hasher, the data tries stored below and the fields of a
new account. -/
structure Setup (φ : Type) where
  hasher : CodeHasher
  db : Contents → Bool
  blank : φ

/-- What a caller changes in an account before it is saved. -/
structure Changes (φ : Type) where
  rest : φ
  code : Option Bytes
  dirtyData : Finmap fun _ : Bytes => Bytes

def Handler.change (h : Handler φ) (c : Changes φ) : Handler φ :=
  { h with account := { h.account with rest := c.rest }, code := c.code, dirtyData := c.dirtyData }

inductive Op (φ : Type) where
  | load (addr : Bytes)
  | save (addr : Bytes) (changes : Changes φ)
  | remove (addr : Bytes)
  | removeCode (addr : Bytes)

/-- An operation, with the database it leaves; an error leaves what was done before it. -/
def AccountsDB.exec (setup : Setup φ) (s : AccountsDB φ) : Op φ → AccountsDB φ
  | .load addr => (s.loadAccount setup.db setup.blank addr).2
  | .save addr changes =>
    match s.loadAccount setup.db setup.blank addr with
    | (.error _, s) => s
    | (.ok h, s) => s.saveAccount setup.hasher addr (h.change changes)
  | .remove addr => (s.removeAccount setup.db addr).2
  | .removeCode addr => (s.removeAccountCode addr).2

/-- A save whose new reference fits the counter. -/
def Op.Fits (setup : Setup φ) (s : AccountsDB φ) : Op φ → Prop
  | .save addr changes => ∀ h s', s.loadAccount setup.db setup.blank addr = (.ok h, s') →
      (h.change changes).Fits setup.hasher addr s'
  | _ => True

/-- Code entries have references, and every pointer leads to a data trie. -/
structure WellFormed (s : AccountsDB φ) : Prop where
  counted : Counted s.tries.codes
  held : ∀ a p, s.dataTries.lookup a = some p → p < s.next
  entries : ∀ e ∈ s.entries, e.Below s.next

/-! ## One operation -/

section Steps

variable {setup : Setup φ} {s : AccountsDB φ}

/-- The ways `LoadAccount` can end: an error, a new account, an account without a data trie, one
whose data trie is in memory, and one whose data trie is read from the database. -/
inductive LoadOutcome (setup : Setup φ) (s : AccountsDB φ) (addr : Bytes) :
    Except StateError (Handler φ) × AccountsDB φ → Prop where
  | failed (e : StateError) : LoadOutcome setup s addr (.error e, s)
  | created (hnone : s.tries.accounts.lookup addr = none) :
      LoadOutcome setup s addr (.ok ⟨⟨none, [], setup.blank⟩, none, none, ∅⟩, s)
  | plain {account : UserAccount φ} (haccount : s.tries.accounts.lookup addr = some account)
      (hroot : account.rootHash = none) :
      LoadOutcome setup s addr (.ok ⟨account, none, none, ∅⟩, s)
  | held {account : UserAccount φ} (haccount : s.tries.accounts.lookup addr = some account)
      {r : Contents} (hroot : account.rootHash = some r) {p : Nat}
      (hheld : s.dataTries.lookup addr = some p) :
      LoadOutcome setup s addr (.ok ⟨account, some p, none, ∅⟩, s)
  | recreated {account : UserAccount φ} (haccount : s.tries.accounts.lookup addr = some account)
      {r : Contents} (hroot : account.rootHash = some r)
      (hheld : s.dataTries.lookup addr = none) (hr : recreates setup.db r = true) :
      LoadOutcome setup s addr (.ok ⟨account, some s.next, none, ∅⟩, s.newDataTrie addr r)

theorem loadAccount_outcome (setup : Setup φ) (s : AccountsDB φ) (addr : Bytes) :
    LoadOutcome setup s addr (s.loadAccount setup.db setup.blank addr) := by
  unfold loadAccount
  split_ifs
  · exact .failed _
  cases haccount : s.tries.accounts.lookup addr with
  | none => exact .created haccount
  | some account =>
    dsimp only
    unfold loadDataTrie
    cases hroot : account.rootHash with
    | none => exact .plain haccount hroot
    | some r =>
      cases hheld : s.dataTries.lookup addr with
      | some p => exact .held haccount hroot hheld
      | none =>
        dsimp only
        split_ifs with hr
        · exact .recreated haccount hroot hheld hr
        · exact .failed _

theorem newDataTrie_wellFormed (hs : WellFormed s) (addr : Bytes) (contents : Contents) :
    WellFormed (s.newDataTrie addr contents) := by
  refine ⟨hs.counted, fun a p hp => ?_, fun e he => (hs.entries e he).mono (Nat.le_succ _)⟩
  rw [newDataTrie, Finmap.lookup_insert_ite] at hp
  split at hp
  · cases hp
    exact Nat.lt_succ_self _
  · exact Nat.lt_succ_of_lt (hs.held a p hp)

variable {addr : Bytes} {out : Except StateError (Handler φ) × AccountsDB φ}

theorem LoadOutcome.wellFormed (hout : LoadOutcome setup s addr out) (hs : WellFormed s) :
    WellFormed out.2 := by
  cases hout with
  | recreated => exact newDataTrie_wellFormed hs _ _
  | _ => exact hs

variable {h : Handler φ}

theorem LoadOutcome.dataTrie_lt {s' : AccountsDB φ} (hout : LoadOutcome setup s addr (.ok h, s'))
    (hs : WellFormed s) :
    ∀ p, h.dataTrie = some p → p < s'.next := by
  intro p hp
  cases hout with
  | created => cases hp
  | plain => cases hp
  | held _ _ hheld =>
    cases hp
    exact hs.held _ _ hheld
  | recreated =>
    cases hp
    exact Nat.lt_succ_self _

theorem LoadOutcome.account {s' : AccountsDB φ} (hout : LoadOutcome setup s addr (.ok h, s')) :
    h.account = (s'.tries.accounts.lookup addr).getD ⟨none, [], setup.blank⟩ := by
  cases hout with
  | created hnone => rw [hnone]; rfl
  | plain haccount => rw [haccount]; rfl
  | held haccount => rw [haccount]; rfl
  | recreated haccount => exact (congrArg (Option.getD · _) haccount).symm

theorem LoadOutcome.tries (hout : LoadOutcome setup s addr out) :
    out.2.tries.accounts = s.tries.accounts ∧ out.2.tries.codes = s.tries.codes := by
  cases hout <;> exact ⟨rfl, rfl⟩

theorem Extends.trans_nil {s s1 s2 : AccountsDB φ} {es : List (JournalEntry φ)}
    (h1 : Extends s s1 []) (h2 : Extends s1 s2 es) : Extends s s2 es := by
  refine ⟨?_, ?_, h1.next_le.trans h2.next_le, h2.below, h2.last.1.trans h1.last.1,
    h2.last.2.trans h1.last.2⟩
  · rw [h2.entries, h1.entries, append_nil]
  · have hload := h1.undone
    exact ⟨h2.undone.accounts.trans hload.accounts, h2.undone.codes.trans hload.codes,
      fun p hp => (h2.undone.heap p (Nat.lt_of_lt_of_le hp h1.next_le)).trans (hload.heap p hp)⟩

theorem prepared_wellFormed (hs : WellFormed s) (addr : Bytes) (h : Handler φ) :
    WellFormed (s.prepared addr h) := by
  unfold prepared ensureDataTrie
  split_ifs
  · exact hs
  · split
    · exact hs
    · exact newDataTrie_wellFormed hs _ _

theorem saveAccount_wellFormed (hs : WellFormed s) (hfits : h.Fits setup.hasher addr s)
    (htrie : ∀ p, h.dataTrie = some p → p < s.next) :
    WellFormed (s.saveAccount setup.hasher addr h) := by
  obtain ⟨hnext, hheld, -, -, hcodes⟩ := saveAccount_prepared setup.hasher addr s h
  obtain ⟨es, hextends⟩ : ∃ es, Extends s (s.saveAccount setup.hasher addr h) es :=
    saveAccount_extends hs.counted hfits htrie
  refine ⟨hcodes ▸ hs.counted.saveCode hfits, fun a p hp => ?_, fun e he => ?_⟩
  · rw [hheld] at hp
    rw [hnext]
    exact (prepared_wellFormed hs addr h).held a p hp
  · rw [hextends.entries] at he
    rcases mem_append.1 he with he | he
    · exact (hs.entries e he).mono hextends.next_le
    · exact hextends.below e he

theorem Removal.wellFormed {s' : AccountsDB φ} (hremoval : Removal s addr s')
    (hs : WellFormed s) : WellFormed s' := by
  obtain ⟨es, hextends⟩ := hremoval.extends hs.counted
  have hentries : ∀ e ∈ s'.entries, e.Below s'.next := by
    intro e he
    rw [hextends.entries] at he
    rcases mem_append.1 he with he | he
    · exact (hs.entries e he).mono hextends.next_le
    · exact hextends.below e he
  cases hremoval with
  | refused => exact hs
  | code haccount => exact ⟨hs.counted.dropReference _, hs.held, hentries⟩
  | account haccount obsolete more => exact ⟨hs.counted.dropReference _, hs.held, hentries⟩

/-- One operation journals what undoes it, and keeps the database well formed. -/
theorem exec_extends (hs : WellFormed s) {op : Op φ} (hfits : op.Fits setup s) :
    (∃ es, Extends s (s.exec setup op) es) ∧ WellFormed (s.exec setup op) := by
  cases op with
  | load addr =>
    exact ⟨⟨[], loadAccount_extends⟩, (loadAccount_outcome setup s addr).wellFormed hs⟩
  | save addr changes =>
    have hout := loadAccount_outcome setup s addr
    have hload : Extends s (s.loadAccount setup.db setup.blank addr).2 [] := loadAccount_extends
    simp only [exec]
    cases hpair : s.loadAccount setup.db setup.blank addr with
    | mk result s1 =>
      rw [hpair] at hout hload
      cases result with
      | error e => exact ⟨⟨[], hload⟩, hout.wellFormed hs⟩
      | ok h =>
        have hs1 : WellFormed s1 := hout.wellFormed hs
        have htrie : ∀ p, (h.change changes).dataTrie = some p → p < s1.next := hout.dataTrie_lt hs
        have hfits1 : (h.change changes).Fits setup.hasher addr s1 := hfits h s1 hpair
        obtain ⟨es, hsave⟩ : ∃ es, Extends s1 _ es :=
          saveAccount_extends hs1.counted hfits1 htrie
        exact ⟨⟨es, hload.trans_nil hsave⟩, saveAccount_wellFormed hs1 hfits1 htrie⟩
  | remove addr =>
    exact ⟨removeAccount_removal.extends hs.counted, removeAccount_removal.wellFormed hs⟩
  | removeCode addr =>
    exact ⟨removeAccountCode_removal.extends hs.counted, removeAccountCode_removal.wellFormed hs⟩

end Steps

/-! ## Snapshots -/

/-- Reverting the newest entries of the journal down to length `n`. -/
def AccountsDB.undoneTo (s : AccountsDB φ) (n : Nat) : Tries φ :=
  undoAll JournalEntry.revert (s.entries.drop n).reverse s.tries

/-- From `s` the journal leads back to `t`. -/
structure Restores (s t : AccountsDB φ) : Prop where
  le : t.journalLen ≤ s.journalLen
  take : s.entries.take t.journalLen = t.entries
  accounts : (s.undoneTo t.journalLen).accounts = t.tries.accounts
  codes : (s.undoneTo t.journalLen).codes = t.tries.codes

theorem Restores.refl (s : AccountsDB φ) : Restores s s := by
  have hself : s.undoneTo s.journalLen = s.tries := by
    rw [undoneTo, AccountsDB.journalLen, drop_length]
    rfl
  exact ⟨le_rfl, take_length, by rw [hself], by rw [hself]⟩

section Steps

variable {s s' t u : AccountsDB φ} {es : List (JournalEntry φ)}

variable {n : Nat}

theorem Extends.undoneTo (h : Extends s s' es) (hn : n ≤ s.journalLen) :
    s'.undoneTo n = undoAll JournalEntry.revert (s.entries.drop n).reverse
      (undoAll JournalEntry.revert es.reverse s'.tries) := by
  rw [AccountsDB.undoneTo, h.entries, drop_append_of_le_length hn, reverse_append, undoAll_append]

theorem Extends.undoneTo_alike (h : Extends s s' es) (hs : WellFormed s) (hn : n ≤ s.journalLen) :
    Alike s.next (s'.undoneTo n) (s.undoneTo n) := by
  rw [h.undoneTo hn]
  refine undoAll_alike (fun e he => hs.entries e ?_) h.undone
  exact mem_of_mem_drop (mem_reverse.1 he)

theorem Restores.extends (h : Restores s t) (hs : WellFormed s) (hstep : Extends s s' es) :
    Restores s' t := by
  have halike := hstep.undoneTo_alike hs h.le
  refine ⟨?_, ?_, halike.accounts.trans h.accounts, halike.codes.trans h.codes⟩
  · change t.journalLen ≤ s'.entries.length
    rw [hstep.entries, length_append]
    exact h.le.trans (Nat.le_add_right _ _)
  · rw [hstep.entries, take_append_of_le_length h.le, h.take]

/-- `RevertToSnapshot` to a length that is not zero. -/
def AccountsDB.undo (s : AccountsDB φ) (n : Nat) : AccountsDB φ :=
  { s with tries := s.undoneTo n, entries := s.entries.take n }

theorem revertToSnapshot_eq (hn : t.journalLen ≤ s.journalLen) :
    s.revertToSnapshot t.journalLen =
      (.ok (), if t.journalLen = 0 then s.recreateTrie else s.undo t.journalLen) := by
  have hbounds : ¬ ((t.journalLen : Int) > s.entries.length ∨ (t.journalLen : Int) < 0) := by
    have : (t.journalLen : Int) ≤ s.entries.length := Int.ofNat_le.2 hn
    omega
  rw [AccountsDB.revertToSnapshot, if_neg hbounds]
  by_cases hzero : t.journalLen = 0
  · rw [if_pos (by omega), if_pos hzero]
  · rw [if_neg (by omega), if_neg hzero]
    rfl

theorem Restores.undoneTo_undo (ht : Restores s t) (hle : n ≤ t.journalLen) :
    (s.undo t.journalLen).undoneTo n = s.undoneTo n := by
  have hsplit : s.entries.drop n =
      (s.entries.take t.journalLen).drop n ++ s.entries.drop t.journalLen := by
    conv_lhs => rw [← take_append_drop t.journalLen s.entries]
    rw [drop_append_of_le_length]
    rw [length_take]
    exact Nat.le_min.2 ⟨hle, hle.trans ht.le⟩
  rw [undoneTo, undoneTo, hsplit, reverse_append, undoAll_append]
  rfl

theorem Restores.undo (ht : Restores s t) (hu : Restores s u) (hle : u.journalLen ≤ t.journalLen) :
    Restores (s.undo t.journalLen) u := by
  have hlen : (s.undo t.journalLen).journalLen = t.journalLen := by
    rw [AccountsDB.journalLen, AccountsDB.undo, ht.take]
    rfl
  have hsame := ht.undoneTo_undo hle
  refine ⟨by rw [hlen]; exact hle, ?_, hsame ▸ hu.accounts, hsame ▸ hu.codes⟩
  rw [AccountsDB.undo, take_take, Nat.min_eq_left hle, hu.take]

end Steps

/-! ## Runs -/

/-- The database right after `Commit` or `RecreateTrie`. -/
structure Fresh (s : AccountsDB φ) : Prop where
  entries : s.entries = []
  dataTries : s.dataTries = ∅
  counted : Counted s.tries.codes
  accounts : s.lastAccounts = s.tries.accounts
  codes : s.lastCodes = s.tries.codes

/-- A run from `base` to the current database, with the states in which `JournalLen` was asked and
that the run has not gone back past since. -/
inductive Run (setup : Setup φ) (allowed : AccountsDB φ → Op φ → Prop) (base : AccountsDB φ) :
    AccountsDB φ → List (AccountsDB φ) → Prop where
  | start : Run setup allowed base base []
  | step {s : AccountsDB φ} {snapshots : List (AccountsDB φ)} {op : Op φ} :
      Run setup allowed base s snapshots → allowed s op →
        Run setup allowed base (s.exec setup op) snapshots
  | journalLen {s : AccountsDB φ} {snapshots : List (AccountsDB φ)} :
      Run setup allowed base s snapshots → Run setup allowed base s (s :: snapshots)
  | revertToSnapshot {s t : AccountsDB φ} {snapshots : List (AccountsDB φ)} :
      Run setup allowed base s snapshots → t ∈ snapshots →
        Run setup allowed base (s.revertToSnapshot t.journalLen).2
          (snapshots.filter fun u => u.journalLen ≤ t.journalLen)

structure Tracks (base s : AccountsDB φ) (snapshots : List (AccountsDB φ)) : Prop where
  wellFormed : WellFormed s
  last : s.lastAccounts = base.tries.accounts ∧ s.lastCodes = base.tries.codes
  restores : ∀ t ∈ base :: snapshots, Restores s t
  counted : ∀ t ∈ base :: snapshots, Counted t.tries.codes

section Runs

variable {setup : Setup φ} {allowed : AccountsDB φ → Op φ → Prop} {base s t : AccountsDB φ}
  {snapshots : List (AccountsDB φ)}

theorem Fresh.tracks (h : Fresh base) : Tracks base base [] where
  wellFormed := by
    refine ⟨h.counted, fun a p hp => ?_, fun e he => ?_⟩
    · rw [h.dataTries, Finmap.lookup_empty] at hp
      cases hp
    · rw [h.entries] at he
      cases he
  last := ⟨h.accounts, h.codes⟩
  restores t ht := by
    rw [mem_singleton.1 ht]
    exact .refl base
  counted t ht := by
    rw [mem_singleton.1 ht]
    exact h.counted

theorem Tracks.step (h : Tracks base s snapshots) {op : Op φ} (hfits : op.Fits setup s) :
    Tracks base (s.exec setup op) snapshots := by
  obtain ⟨⟨es, hextends⟩, hwell⟩ := exec_extends h.wellFormed hfits
  refine ⟨hwell, ?_, fun t ht => (h.restores t ht).extends h.wellFormed hextends, h.counted⟩
  rw [hextends.last.1, hextends.last.2]
  exact h.last

theorem Tracks.journalLen (h : Tracks base s snapshots) : Tracks base s (s :: snapshots) := by
  have hmem : ∀ {P : AccountsDB φ → Prop}, P s → (∀ t ∈ base :: snapshots, P t) →
      ∀ t ∈ base :: s :: snapshots, P t := by
    intro P hs hall t ht
    rcases mem_cons.1 ht with rfl | ht
    · exact hall t mem_cons_self
    · rcases mem_cons.1 ht with rfl | ht
      · exact hs
      · exact hall t (mem_cons_of_mem _ ht)
  exact ⟨h.wellFormed, h.last, hmem (.refl s) h.restores, hmem h.wellFormed.counted h.counted⟩

/-- The snapshots that are left after going back to `t` are no longer than `t`. -/
theorem mem_left {u : AccountsDB φ}
    (hu : u ∈ base :: snapshots.filter fun u => u.journalLen ≤ t.journalLen) (h0 : base.entries = []) :
    u ∈ base :: snapshots ∧ u.journalLen ≤ t.journalLen := by
  rcases mem_cons.1 hu with rfl | hu
  · refine ⟨mem_cons_self, ?_⟩
    rw [AccountsDB.journalLen, h0]
    exact Nat.zero_le _
  · obtain ⟨hmem, hle⟩ := mem_filter.1 hu
    exact ⟨mem_cons_of_mem _ hmem, of_decide_eq_true hle⟩

section
variable (h : Tracks base s snapshots) (h0 : base.entries = []) (ht : t ∈ base :: snapshots)
include h h0 ht

theorem Tracks.base_of_zero (hlen : t.journalLen = 0) :
    t.tries.accounts = base.tries.accounts ∧ t.tries.codes = base.tries.codes := by
  have hb := h.restores base mem_cons_self
  have hb0 : base.journalLen = 0 := by rw [AccountsDB.journalLen, h0]; rfl
  rw [← (h.restores t ht).accounts, ← (h.restores t ht).codes, ← hb.accounts, ← hb.codes, hlen, hb0]
  exact ⟨rfl, rfl⟩

/-- Reverting to a snapshot gives back the main trie that was there when `JournalLen` was asked. -/
theorem Tracks.restores_mainTrie : (s.revertToSnapshot t.journalLen).1 = .ok () ∧
      (s.revertToSnapshot t.journalLen).2.tries.accounts = t.tries.accounts ∧
      (s.revertToSnapshot t.journalLen).2.tries.codes = t.tries.codes := by
  rw [revertToSnapshot_eq (h.restores t ht).le]
  refine ⟨rfl, ?_⟩
  by_cases hzero : t.journalLen = 0
  · obtain ⟨haccounts, hcodes⟩ := h.base_of_zero h0 ht hzero
    rw [if_pos hzero, haccounts, hcodes, ← h.last.1, ← h.last.2]
    exact ⟨rfl, rfl⟩
  · rw [if_neg hzero]
    exact ⟨(h.restores t ht).accounts, (h.restores t ht).codes⟩

theorem Tracks.revertToSnapshot : Tracks base (s.revertToSnapshot t.journalLen).2
      (snapshots.filter fun u => u.journalLen ≤ t.journalLen) := by
  have hrestores := h.restores t ht
  have hcodes := (h.restores_mainTrie h0 ht).2.2
  have hcounted := h.counted t ht
  rw [← hcodes] at hcounted
  rw [revertToSnapshot_eq hrestores.le] at hcounted ⊢
  by_cases hzero : t.journalLen = 0
  · rw [if_pos hzero] at hcounted ⊢
    refine ⟨⟨hcounted, fun a p hp => ?_, fun e he => ?_⟩, h.last, fun u hu => ?_, fun u hu => ?_⟩
    · rw [recreateTrie, Finmap.lookup_empty] at hp
      cases hp
    · cases he
    · obtain ⟨hmem, hle⟩ := mem_left hu h0
      have hlen : u.journalLen = 0 := Nat.le_zero.1 (hzero ▸ hle)
      obtain ⟨haccounts, hcodes⟩ := h.base_of_zero h0 hmem hlen
      refine ⟨hlen ▸ Nat.zero_le _, ?_, ?_, ?_⟩
      · rw [hlen, take_zero]
        exact (eq_nil_of_length_eq_zero hlen).symm
      · rw [hlen, haccounts, ← h.last.1]
        rfl
      · rw [hlen, hcodes, ← h.last.2]
        rfl
    · exact h.counted u (mem_left hu h0).1
  · rw [if_neg hzero] at hcounted ⊢
    refine ⟨⟨hcounted, h.wellFormed.held, fun e he => ?_⟩, h.last, fun u hu => ?_, fun u hu => ?_⟩
    · exact h.wellFormed.entries e (mem_of_mem_take he)
    · obtain ⟨hmem, hle⟩ := mem_left hu h0
      exact hrestores.undo (h.restores u hmem) hle
    · exact h.counted u (mem_left hu h0).1

end

end Runs

end KleverGo.StateDB
