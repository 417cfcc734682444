import KleverGo.State.JournalRuns

/-!
# Data tries and rollback

The journal holds pointers to data tries, and `dataTries` keeps one pointer for each address.  After
a rollback an account has its old root hash again; what `LoadAccount` exposes is the data trie that
`dataTries` has for the address.  The two agree as long as no save puts a new data trie in the place
of one that a snapshot still needs.  Removing an account and saving data under its address again
does that, so runs are asked not to (`KeepsData`).

Principal results:

* `Exposes.extends` — one step, for an older snapshot;
* `Run.exposes` — at every point of a run, every snapshot has its data tries;
* `rollback_exact` — **reverting to a snapshot restores accounts, code entries and what `LoadAccount`
  exposes for every address**;
* `recreated_account_loses_data` — what happens when data is saved for a removed account.
-/

namespace KleverGo.StateDB

open Journal AccountsDB Finmap JournalEntry List Tries

variable {φ : Type}

/-- The root hash of the account at an address. -/
def Tries.root (t : Tries φ) (a : Bytes) : Option Contents :=
  (t.accounts.lookup a).bind UserAccount.rootHash

theorem Tries.root_congr {t u : Tries φ} (h : t.accounts = u.accounts) (a : Bytes) :
    t.root a = u.root a := by
  rw [Tries.root, Tries.root, h]

/-- What `LoadAccount` exposes: the contents of the data trie that the account gets. -/
def AccountsDB.exposed (setup : Setup φ) (s : AccountsDB φ) (addr : Bytes) :
    Except StateError (Option Contents) :=
  match s.loadAccount setup.db setup.blank addr with
  | (.error e, _) => .error e
  | (.ok h, s) => .ok (h.dataTrie.map s.tries.heap)

/-- The entry restores or writes data of an account. -/
def JournalEntry.HasData (a : Bytes) : JournalEntry φ → Prop
  | .account addr old => addr = a ∧ old.rootHash ≠ none
  | .accountDataTrieUpdates addr _ _ _ => addr = a
  | _ => False

/-- A save that writes data to an account without a data trie, although the journal restores or
writes data of that account. -/
def Op.RecreatesData (setup : Setup φ) (s : AccountsDB φ) : Op φ → Prop
  | .save addr changes => changes.dirtyData ≠ ∅ ∧
      (∃ h s', s.loadAccount setup.db setup.blank addr = (.ok h, s') ∧ h.dataTrie = none) ∧
      ∃ e ∈ s.entries, e.HasData addr
  | _ => False

/-- The operations of a run that keeps the data its snapshots need. -/
def KeepsData (setup : Setup φ) (s : AccountsDB φ) (op : Op φ) : Prop :=
  op.Fits setup s ∧ ¬ op.RecreatesData setup s

/-- For a snapshot `t` of a run from `base` that is at `s` now. -/
structure Exposes (setup : Setup φ) (base s t : AccountsDB φ) : Prop where
  /-- once undone, the data trie of an address has the contents of the root hash -/
  undone : ∀ a r p, t.tries.root a = some r → s.dataTries.lookup a = some p →
    (s.undoneTo t.journalLen).heap p = r
  /-- the data of an address without a data trie in memory is that of the base -/
  unheld : ∀ a, s.dataTries.lookup a = none →
    t.tries.root a = none ∨ t.tries.root a = base.tries.root a
  /-- what could not be loaded still cannot -/
  missing : ∀ a r, t.tries.root a = some r → t.dataTries.lookup a = none →
    recreates setup.db r = false → s.dataTries.lookup a = none
  coherent : ∀ a r p, t.tries.root a = some r → t.dataTries.lookup a = some p → t.tries.heap p = r
  base_missing : ∀ a r, base.tries.root a = some r → recreates setup.db r = false →
    t.dataTries.lookup a = none

/-- No two addresses have one data trie. -/
def HoldsApart (s : AccountsDB φ) : Prop :=
  ∀ a b p, s.dataTries.lookup a = some p → s.dataTries.lookup b = some p → a = b

/-! ## The journal and the root hashes -/

variable {a : Bytes}

theorem revert_root_none {e : JournalEntry φ} (he : ¬ e.HasData a) {t : Tries φ}
    (ht : t.root a = none) : (e.revert t).root a = none := by
  cases e with
  | account addr old =>
    simp only [Tries.root, revert, saveAccountToTrie, lookup_insert_ite]
    split
    · next heq =>
      exact Classical.not_not.1 fun hroot => he ⟨heq.symm, hroot⟩
    · exact ht
  | accountCreation addr =>
    simp only [Tries.root, revert, lookup_erase_ite]
    split
    · rfl
    · exact ht
  | accountDataTrieUpdates addr holder p updates =>
    simp only [Tries.root, revert, saveAccountToTrie, lookup_insert_ite]
    split
    · next heq => exact absurd heq.symm he
    · exact ht
  | accountDataTrieRemove r => exact ht
  | code oldEntry oldHash newHash =>
    simp only [revert]
    split <;> exact ht

theorem undoAll_root_none {es : List (JournalEntry φ)} (hes : ∀ e ∈ es, ¬ e.HasData a) {t : Tries φ}
    (ht : t.root a = none) :
    (undoAll revert es t).root a = none := by
  induction es generalizing t with
  | nil => exact ht
  | cons e rest ih =>
    exact ih (fun e' he' => hes e' (mem_cons_of_mem _ he'))
      (revert_root_none (hes e mem_cons_self) ht)

/-- Without an entry for its data, an account that has no data trie had none in any snapshot. -/
theorem Restores.root_none {s t : AccountsDB φ} (h : Restores s t)
    (hes : ∀ e ∈ s.entries, ¬ e.HasData a) (hs : s.tries.root a = none) :
    t.tries.root a = none := by
  rw [← root_congr h.accounts a]
  refine undoAll_root_none (fun e he => hes e ?_) hs
  exact mem_of_mem_drop (mem_reverse.1 he)

/-! ## One step -/

section Steps

variable {setup : Setup φ} {base s s' t : AccountsDB φ}

variable {es : List (JournalEntry φ)}

/-- A step that only adds data tries: those it adds have the contents each snapshot asks for. -/
theorem Exposes.extends (h : Exposes setup base s t) (hs : WellFormed s) (ht : Restores s t)
    (hstep : Extends s s' es)
    (hold : ∀ a, s'.dataTries.lookup a = none → s.dataTries.lookup a = none)
    (hnew : ∀ a p, s'.dataTries.lookup a = some p → s.dataTries.lookup a = some p ∨ s.next ≤ p ∧
      ∀ r, t.tries.root a = some r → (undoAll revert es.reverse s'.tries).heap p = r ∧
      recreates setup.db r = true) :
    Exposes setup base s' t where
  undone a r p hr hp := by
    rcases hnew a p hp with hp | ⟨hle, hp⟩
    · rw [(hstep.undoneTo_alike hs ht.le).heap p (hs.held a p hp)]
      exact h.undone a r p hr hp
    · rw [hstep.undoneTo ht.le, undoAll_heap_of_le _ hle]
      · exact (hp r hr).1
      · exact fun e he => hs.entries e (mem_of_mem_drop (mem_reverse.1 he))
  unheld a ha := h.unheld a (hold a ha)
  missing a r hr hheld hrec := by
    cases hp : s'.dataTries.lookup a with
    | none => rfl
    | some p =>
      rcases hnew a p hp with hp | ⟨-, hp⟩
      · rw [h.missing a r hr hheld hrec] at hp
        cases hp
      · rw [(hp r hr).2] at hrec
        cases hrec
  coherent := h.coherent
  base_missing := h.base_missing

theorem Exposes.self (hcoherent : ∀ a r p, s.tries.root a = some r → s.dataTries.lookup a = some p →
      s.tries.heap p = r)
    (hunheld : ∀ a, s.dataTries.lookup a = none →
      s.tries.root a = none ∨ s.tries.root a = base.tries.root a)
    (hmissing : ∀ a r, base.tries.root a = some r → recreates setup.db r = false →
      s.dataTries.lookup a = none) : Exposes setup base s s where
  undone a r p hr hp := by
    rw [undoneTo, AccountsDB.journalLen, drop_length]
    exact hcoherent a r p hr hp
  unheld := hunheld
  missing a r hr hheld _ := hheld
  coherent := hcoherent
  base_missing := hmissing

/-- What holds at every point of a run. -/
structure Keeps (setup : Setup φ) (base s : AccountsDB φ) (snapshots : List (AccountsDB φ)) :
    Prop where
  tracks : Tracks base s snapshots
  apart : HoldsApart s
  exposes : ∀ t ∈ s :: base :: snapshots, Exposes setup base s t

variable {snapshots : List (AccountsDB φ)}

theorem Keeps.of_step (h : Keeps setup base s snapshots) (htracks : Tracks base s' snapshots)
    (hapart : HoldsApart s') (hself : Exposes setup base s' s')
    (hexposes : ∀ t ∈ base :: snapshots, Exposes setup base s t → Exposes setup base s' t) :
    Keeps setup base s' snapshots := by
  refine ⟨htracks, hapart, fun t ht => ?_⟩
  rcases mem_cons.1 ht with rfl | ht
  · exact hself
  · exact hexposes t ht (h.exposes t (mem_cons_of_mem _ ht))

theorem Keeps.self (h : Keeps setup base s snapshots) : Exposes setup base s s :=
  h.exposes s mem_cons_self

variable {addr : Bytes} {contents : Contents}

theorem newDataTrie_lookup (a : Bytes) :
    (s.newDataTrie addr contents).dataTries.lookup a =
      if a = addr then some s.next else s.dataTries.lookup a :=
  lookup_insert_ite _ _ _ _

theorem newDataTrie_apart (hs : WellFormed s) (hapart : HoldsApart s) (addr : Bytes)
    (contents : Contents) : HoldsApart (s.newDataTrie addr contents) := by
  intro a b p ha hb
  rw [newDataTrie_lookup] at ha hb
  split at ha <;> split at hb
  · next ha' hb' => rw [ha', hb']
  · cases ha
    exact absurd (hs.held b _ hb) (Nat.lt_irrefl _)
  · cases hb
    exact absurd (hs.held a _ ha) (Nat.lt_irrefl _)
  · exact hapart a b p ha hb

variable {a : Bytes}

theorem newDataTrie_none (ha : (s.newDataTrie addr contents).dataTries.lookup a = none) :
    a ≠ addr ∧ s.dataTries.lookup a = none := by
  rw [newDataTrie_lookup] at ha
  split at ha
  · cases ha
  · next hne => exact ⟨hne, ha⟩

section
variable (h : Keeps setup base s snapshots)
include h

theorem Keeps.newDataTrie {r : Contents} (hroot : s.tries.root addr = some r)
    (hheld : s.dataTries.lookup addr = none) (hrec : recreates setup.db r = true) :
    Keeps setup base (s.newDataTrie addr r) snapshots := by
  have hs := h.tracks.wellFormed
  have hstep : Extends s (s.newDataTrie addr r) [] := newDataTrie_extends r
  have hbase : base.tries.root addr = some r := by
    rcases h.self.unheld addr hheld with hnone | hsame
    · rw [hroot] at hnone; cases hnone
    · rw [← hsame, hroot]
  have hheap : (s.newDataTrie addr r).tries.heap s.next = r := Function.update_self _ _ _
  refine h.of_step ?_ (newDataTrie_apart hs h.apart _ _) ?_ fun t ht hexposes => ?_
  · exact ⟨newDataTrie_wellFormed hs _ _, h.tracks.last,
      fun t ht => (h.tracks.restores t ht).extends hs hstep, h.tracks.counted⟩
  · refine .self (fun a r' p hr hp => ?_) (fun a ha => ?_) fun a r' hr hmissing => ?_
    · have hr : s.tries.root a = some r' := hr
      rw [newDataTrie_lookup] at hp
      split at hp
      · next heq =>
        subst heq
        cases hp
        rw [hheap]
        exact Option.some.inj (hroot.symm.trans hr)
      · refine (hstep.undone.heap p (hs.held a p hp)).trans ?_
        exact h.self.coherent a r' p hr hp
    · exact h.self.unheld a (newDataTrie_none ha).2
    · have hold := h.self.base_missing a r' hr hmissing
      rw [newDataTrie_lookup, hold]
      split
      · next heq =>
        subst heq
        rw [hbase] at hr
        cases hr
        rw [hrec] at hmissing
        cases hmissing
      · rfl
  · refine hexposes.extends hs (h.tracks.restores t ht) hstep (fun a ha => (newDataTrie_none ha).2)
      fun a p hp => ?_
    rw [newDataTrie_lookup] at hp
    split at hp
    · next heq =>
      subst heq
      cases hp
      refine .inr ⟨le_rfl, fun r' hr => ?_⟩
      have hsame : r' = r := by
        rcases hexposes.unheld a hheld with hnone | hsame
        · rw [hr] at hnone; cases hnone
        · rw [hr, hbase] at hsame
          exact Option.some.inj hsame
      subst hsame
      exact ⟨hheap, hrec⟩
    · exact .inl hp

theorem Keeps.load {out : Except StateError (Handler φ) × AccountsDB φ}
    (hout : LoadOutcome setup s addr out) :
    Keeps setup base out.2 snapshots := by
  cases hout with
  | recreated haccount hroot hheld hrec =>
    refine h.newDataTrie ?_ hheld hrec
    rw [Tries.root, haccount]
    exact hroot
  | _ => exact h

/-- A step that touches no data trie and gives no account another root hash. -/
theorem Keeps.of_same_data (hstep : Extends s s' es) (hs' : WellFormed s')
    (hheld : s'.dataTries = s.dataTries) (hheap : s'.tries.heap = s.tries.heap)
    (hroot : ∀ a, s'.tries.root a = none ∨ s'.tries.root a = s.tries.root a) :
    Keeps setup base s' snapshots := by
  have hs := h.tracks.wellFormed
  refine h.of_step ?_ (fun a b p => by rw [hheld]; exact h.apart a b p) ?_ fun t ht hexposes => ?_
  · exact ⟨hs', by rw [hstep.last.1, hstep.last.2]; exact h.tracks.last,
      fun t ht => (h.tracks.restores t ht).extends hs hstep, h.tracks.counted⟩
  · refine .self (fun a r p hr hp => ?_) (fun a ha => ?_) fun a r hr hmissing => ?_
    · rw [hheld] at hp
      rw [hheap]
      rcases hroot a with hnone | hsame
      · rw [hnone] at hr; cases hr
      · exact h.self.coherent a r p (hsame ▸ hr) hp
    · rw [hheld] at ha
      rcases hroot a with hnone | hsame
      · exact .inl hnone
      · rw [hsame]
        exact h.self.unheld a ha
    · rw [hheld]
      exact h.self.base_missing a r hr hmissing
  · exact hexposes.extends hs (h.tracks.restores t ht) hstep (fun a ha => hheld ▸ ha)
      fun a p hp => .inl (hheld ▸ hp)

theorem Keeps.removal (hremoval : Removal s addr s') : Keeps setup base s' snapshots := by
  obtain ⟨es, hstep⟩ := hremoval.extends h.tracks.wellFormed.counted
  refine h.of_same_data hstep (hremoval.wellFormed h.tracks.wellFormed) ?_ ?_ ?_ <;>
    cases hremoval
  case refine_3.account haccount obsolete more =>
    intro a
    simp only [Tries.root, lookup_erase_ite]
    split
    · exact .inl rfl
    · exact .inr rfl
  case refine_3.refused => exact fun a => .inr rfl
  case refine_3.code => exact fun a => .inr rfl
  all_goals rfl

end

/-- A handler that belongs to the database. -/
structure Current (s : AccountsDB φ) (addr : Bytes) (h : Handler φ) : Prop where
  root : h.account.rootHash = s.tries.root addr
  held : ∀ p, h.dataTrie = some p → s.dataTries.lookup addr = some p
  unheld : h.dataTrie = none → s.tries.root addr = none

variable {h : Handler φ}

theorem LoadOutcome.current {s' : AccountsDB φ} (hout : LoadOutcome setup s addr (.ok h, s'))
    (changes : Changes φ) :
    Current s' addr (h.change changes) := by
  have hroot : ∀ {u : AccountsDB φ} {account : UserAccount φ},
      u.tries.accounts.lookup addr = some account → u.tries.root addr = account.rootHash := by
    intro u account haccount
    rw [Tries.root, haccount]
    rfl
  cases hout with
  | created hnone =>
    have hnone : s.tries.root addr = none := by rw [Tries.root, hnone]; rfl
    exact ⟨hnone.symm, fun p hp => (by cases hp), fun _ => hnone⟩
  | plain haccount hplain =>
    refine ⟨(hroot haccount).symm, fun p hp => (by cases hp), fun _ => ?_⟩
    rw [hroot haccount, hplain]
  | held haccount hr hheld =>
    refine ⟨(hroot haccount).symm, fun p hp => ?_, fun hnone => by cases hnone⟩
    cases hp
    exact hheld
  | recreated haccount hr hheld hrec =>
    refine ⟨(hroot haccount).symm, fun p hp => ?_, fun hnone => by cases hnone⟩
    cases hp
    rw [newDataTrie_lookup, if_pos rfl]

theorem saveAccount_clean (s : AccountsDB φ) (hasher : CodeHasher) (addr : Bytes)
    (hclean : h.dirtyData = ∅) :
    (s.saveAccount hasher addr h).tries.heap = s.tries.heap ∧
      ∀ a, (s.saveAccount hasher addr h).tries.root a =
        if a = addr then h.account.rootHash else s.tries.root a := by
  unfold saveAccount
  dsimp only
  rw [if_pos hclean]
  refine ⟨rfl, fun a => ?_⟩
  simp only [Tries.root, saveAccountToTrie, lookup_insert_ite]
  split <;> rfl

theorem saveAccount_dirty (s : AccountsDB φ) (hasher : CodeHasher) (addr : Bytes)
    (hdirty : h.dirtyData ≠ ∅) :
    (∀ q, q ≠ (s.ensureDataTrie addr h).1 → (s.saveAccount hasher addr h).tries.heap q =
        (s.ensureDataTrie addr h).2.tries.heap q) ∧
      ∀ a, (s.saveAccount hasher addr h).tries.root a =
        if a = addr then
          some ((s.saveAccount hasher addr h).tries.heap (s.ensureDataTrie addr h).1)
        else s.tries.root a := by
  have haccounts : (s.ensureDataTrie addr h).2.tries.accounts = s.tries.accounts := by
    unfold ensureDataTrie
    split <;> rfl
  unfold saveAccount
  dsimp only
  rw [if_neg hdirty]
  refine ⟨fun q hq => Function.update_of_ne hq _ _, fun a => ?_⟩
  simp only [Tries.root, saveAccountToTrie, writeData, lookup_insert_ite, haccounts]
  split <;> rfl

variable {hd : Handler φ}

theorem Keeps.saveAccount_clean (h : Keeps setup base s snapshots) (hcurrent : Current s addr hd)
    (hclean : hd.dirtyData = ∅) (hfits : hd.Fits setup.hasher addr s) :
    Keeps setup base (s.saveAccount setup.hasher addr hd) snapshots := by
  have hs := h.tracks.wellFormed
  have htrie : ∀ p, hd.dataTrie = some p → p < s.next :=
    fun p hp => hs.held addr p (hcurrent.held p hp)
  obtain ⟨es, hstep⟩ : ∃ es, Extends s (s.saveAccount setup.hasher addr hd) es :=
    saveAccount_extends hs.counted hfits htrie
  obtain ⟨hheap, hroot⟩ := StateDB.saveAccount_clean s setup.hasher addr hclean
  refine h.of_same_data hstep (saveAccount_wellFormed hs hfits htrie) ?_ hheap fun a => .inr ?_
  · rw [(saveAccount_prepared setup.hasher addr s hd).2.1, prepared, if_pos hclean]
  · rw [hroot a]
    split
    · next heq => rw [heq, hcurrent.root]
    · rfl

theorem Keeps.saveAccount_dirty (h : Keeps setup base s snapshots) (hcurrent : Current s addr hd)
    (hdirty : hd.dirtyData ≠ ∅) (hfits : hd.Fits setup.hasher addr s)
    (hdata : hd.dataTrie = none → ∀ e ∈ s.entries, ¬ e.HasData addr) :
    Keeps setup base (s.saveAccount setup.hasher addr hd) snapshots := by
  have hs := h.tracks.wellFormed
  have htrie : ∀ p, hd.dataTrie = some p → p < s.next :=
    fun p hp => hs.held addr p (hcurrent.held p hp)
  obtain ⟨es, hstep⟩ : ∃ es, Extends s (s.saveAccount setup.hasher addr hd) es :=
    saveAccount_extends hs.counted hfits htrie
  obtain ⟨hheap, hroot⟩ := StateDB.saveAccount_dirty s setup.hasher addr hdirty
  have hheld : (s.saveAccount setup.hasher addr hd).dataTries =
      (s.ensureDataTrie addr hd).2.dataTries := by
    rw [(saveAccount_prepared setup.hasher addr s hd).2.1, prepared, if_neg hdirty]
  have htracks : Tracks base (s.saveAccount setup.hasher addr hd) snapshots :=
    ⟨saveAccount_wellFormed hs hfits htrie,
      by rw [hstep.last.1, hstep.last.2]; exact h.tracks.last,
      fun t ht => (h.tracks.restores t ht).extends hs hstep, h.tracks.counted⟩
  cases htrie' : hd.dataTrie with
  | some p =>
    -- the account has its data trie, which nothing else holds
    have hensure : s.ensureDataTrie addr hd = (p, s) := by
      rw [ensureDataTrie, htrie']
    rw [hensure] at hheap hroot hheld
    have hp := hcurrent.held p htrie'
    refine h.of_step htracks (fun a b q => by rw [hheld]; exact h.apart a b q) ?_
      fun t ht hexposes => ?_
    · refine .self (fun a r q hr hq => ?_) (fun a ha => ?_) fun a r hr hmissing => ?_
      · rw [hheld] at hq
        rw [hroot a] at hr
        split at hr
        · next heq =>
          rw [heq, hp] at hq
          cases hq
          exact Option.some.inj hr
        · next hne =>
          have hother : q ≠ p := fun heq => hne (h.apart a addr p (heq ▸ hq) hp)
          rw [hheap q hother]
          exact h.self.coherent a r q hr hq
      · rw [hheld] at ha
        rw [hroot a]
        split
        · next heq =>
          rw [heq, hp] at ha
          cases ha
        · exact h.self.unheld a ha
      · rw [hheld]
        exact h.self.base_missing a r hr hmissing
    · exact hexposes.extends hs (h.tracks.restores t ht) hstep (fun a ha => hheld ▸ ha)
        fun a q hq => .inl (hheld ▸ hq)
  | none =>
    -- a new data trie, for an account that no snapshot has data of
    have hensure : s.ensureDataTrie addr hd = (s.next, s.newDataTrie addr ∅) := by
      rw [ensureDataTrie, htrie']
    rw [hensure] at hheap hroot hheld
    have hnone : ∀ t ∈ base :: snapshots, t.tries.root addr = none := fun t ht =>
      (h.tracks.restores t ht).root_none (hdata htrie') (hcurrent.unheld htrie')
    refine h.of_step htracks (fun a b q => ?_) ?_ fun t ht hexposes => ?_
    · rw [hheld]
      exact newDataTrie_apart hs h.apart addr ∅ a b q
    · refine .self (fun a r q hr hq => ?_) (fun a ha => ?_) fun a r hr hmissing => ?_
      · rw [hheld, newDataTrie_lookup] at hq
        rw [hroot a] at hr
        by_cases heq : a = addr
        · rw [if_pos heq] at hq hr
          cases hq
          exact Option.some.inj hr
        rw [if_neg heq] at hq hr
        have hlt := hs.held a q hq
        have hkept : Extends s (s.newDataTrie addr ∅) [] := newDataTrie_extends ∅
        rw [hheap q (Nat.ne_of_lt hlt)]
        exact (hkept.undone.heap q hlt).trans (h.self.coherent a r q hr hq)
      · rw [hheld] at ha
        obtain ⟨hne, ha⟩ := newDataTrie_none ha
        rw [hroot a, if_neg hne]
        exact h.self.unheld a ha
      · rw [hheld, newDataTrie_lookup, h.self.base_missing a r hr hmissing]
        split
        · next heq =>
          rw [heq, hnone base mem_cons_self] at hr
          cases hr
        · rfl
    · refine hexposes.extends hs (h.tracks.restores t ht) hstep
        (fun a ha => (newDataTrie_none (hheld ▸ ha)).2) fun a q hq => ?_
      rw [hheld, newDataTrie_lookup] at hq
      split at hq
      · next heq =>
        cases hq
        refine .inr ⟨le_rfl, fun r hr => ?_⟩
        rw [heq, hnone t ht] at hr
        cases hr
      · exact .inl hq

theorem Keeps.step (h : Keeps setup base s snapshots) {op : Op φ} (hop : KeepsData setup s op) :
    Keeps setup base (s.exec setup op) snapshots := by
  obtain ⟨hfits, hdata⟩ := hop
  cases op with
  | load addr => exact h.load (loadAccount_outcome setup s addr)
  | save addr changes =>
    have hout := loadAccount_outcome setup s addr
    simp only [exec]
    cases hpair : s.loadAccount setup.db setup.blank addr with
    | mk result s1 =>
      rw [hpair] at hout
      have h1 : Keeps setup base s1 snapshots := h.load hout
      cases result with
      | error e => exact h1
      | ok hd =>
        have hcurrent := hout.current changes
        by_cases hdirty : changes.dirtyData = ∅
        · exact h1.saveAccount_clean hcurrent hdirty (hfits hd s1 hpair)
        refine h1.saveAccount_dirty hcurrent hdirty (hfits hd s1 hpair) fun hnone e he hhas => ?_
        refine hdata ⟨hdirty, ⟨hd, s1, hpair, hnone⟩, e, ?_, hhas⟩
        have hload : Extends s (s.loadAccount setup.db setup.blank addr).2 [] :=
          loadAccount_extends
        rw [hpair] at hload
        rwa [hload.entries, append_nil] at he
  | remove addr => exact h.removal removeAccount_removal
  | removeCode addr => exact h.removal removeAccountCode_removal

/-! ## Snapshots and runs -/

theorem Keeps.journalLen (h : Keeps setup base s snapshots) :
    Keeps setup base s (s :: snapshots) := by
  refine ⟨h.tracks.journalLen, h.apart, fun t ht => h.exposes t ?_⟩
  simp only [mem_cons] at ht ⊢
  rcases ht with ht | ht | ht | ht
  · exact .inl ht
  · exact .inr (.inl ht)
  · exact .inl ht
  · exact .inr (.inr ht)

theorem Keeps.revertToSnapshot (h : Keeps setup base s snapshots) (h0 : base.entries = [])
    (ht : t ∈ snapshots) : Keeps setup base (s.revertToSnapshot t.journalLen).2
      (snapshots.filter fun u => u.journalLen ≤ t.journalLen) := by
  have hmem : t ∈ base :: snapshots := mem_cons_of_mem _ ht
  have htracks := h.tracks.revertToSnapshot h0 hmem
  obtain ⟨-, haccounts, -⟩ := h.tracks.restores_mainTrie h0 hmem
  have hroot : ∀ a, (s.revertToSnapshot t.journalLen).2.tries.root a = t.tries.root a :=
    root_congr haccounts
  have ht' := h.exposes t (mem_cons_of_mem _ hmem)
  rw [revertToSnapshot_eq (h.tracks.restores t hmem).le] at htracks hroot ⊢
  by_cases hzero : t.journalLen = 0
  · -- everything is read again from the last committed root
    rw [if_pos hzero] at htracks hroot ⊢
    have hunheld : ∀ a, s.recreateTrie.dataTries.lookup a = none := fun a => lookup_empty _
    have hbase : ∀ u ∈ base :: snapshots, u.journalLen ≤ t.journalLen →
        ∀ a, u.tries.root a = base.tries.root a := fun u hu hle =>
      root_congr (h.tracks.base_of_zero h0 hu (Nat.le_zero.1 (hzero ▸ hle))).1
    refine ⟨htracks, fun a b p ha => ?_, fun u hu => ?_⟩
    · rw [hunheld] at ha; cases ha
    rcases mem_cons.1 hu with rfl | hu
    · refine .self (fun a r p _ hp => ?_) (fun a _ => .inr ?_) fun a _ _ _ => hunheld a
      · rw [hunheld] at hp; cases hp
      · rw [hroot, hbase t hmem le_rfl]
    obtain ⟨hu, hle⟩ := mem_left hu h0
    have hu' := h.exposes u (mem_cons_of_mem _ hu)
    refine ⟨fun a r p _ hp => ?_, fun a _ => .inr (hbase u hu hle a), fun a _ _ _ _ => hunheld a,
      hu'.coherent, hu'.base_missing⟩
    rw [hunheld] at hp; cases hp
  · rw [if_neg hzero] at htracks hroot ⊢
    refine ⟨htracks, h.apart, fun u hu => ?_⟩
    rcases mem_cons.1 hu with rfl | hu
    · refine .self (fun a r p hr hp => ?_) (fun a ha => ?_) h.self.base_missing
      · rw [hroot] at hr
        exact ht'.undone a r p hr hp
      · rw [hroot]
        exact ht'.unheld a ha
    · obtain ⟨hu, hle⟩ := mem_left hu h0
      have hu' := h.exposes u (mem_cons_of_mem _ hu)
      refine ⟨fun a r p hr hp => ?_, hu'.unheld, hu'.missing, hu'.coherent, hu'.base_missing⟩
      rw [(h.tracks.restores t hmem).undoneTo_undo hle]
      exact hu'.undone a r p hr hp

theorem Fresh.keeps (hbase : Fresh base) : Keeps setup base base [] := by
  have hunheld : ∀ a, base.dataTries.lookup a = none := fun a => by
    rw [hbase.dataTries, lookup_empty]
  have hself : Exposes setup base base base := by
    refine .self (fun a r p _ hp => ?_) (fun a _ => .inr rfl) fun a _ _ _ => hunheld a
    rw [hunheld] at hp
    cases hp
  refine ⟨hbase.tracks, fun a b p ha => ?_, fun t ht => ?_⟩
  · rw [hunheld] at ha
    cases ha
  · simp only [mem_cons, not_mem_nil, or_false, or_self] at ht
    rw [ht]
    exact hself

theorem Run.exposes (hbase : Fresh base) (hrun : Run setup (KeepsData setup) base s snapshots) :
    Keeps setup base s snapshots := by
  induction hrun with
  | start => exact hbase.keeps
  | step _ hallowed ih => exact ih.step hallowed
  | journalLen _ ih => exact ih.journalLen
  | revertToSnapshot _ ht ih => exact ih.revertToSnapshot hbase.entries ht

/-- What `LoadAccount` exposes, from the root hash and the data trie in memory. -/
theorem exposed_eq (setup : Setup φ) (s : AccountsDB φ) (ha : a ≠ []) :
    s.exposed setup a =
      match s.tries.root a, s.dataTries.lookup a with
      | none, _ => .ok none
      | some _, some p => .ok (some (s.tries.heap p))
      | some r, none => if recreates setup.db r then .ok (some r) else .error (.ErrMissingTrie r) := by
  unfold exposed loadAccount Tries.root
  rw [if_neg ha]
  cases haccount : s.tries.accounts.lookup a with
  | none => rfl
  | some account =>
    simp only [loadDataTrie, Option.bind_some]
    cases hroot : account.rootHash with
    | none => rfl
    | some r =>
      cases hheld : s.dataTries.lookup a with
      | some p => rfl
      | none =>
        dsimp only
        split_ifs
        · simp only [newDataTrie, Option.map_some, Function.update_self]
        · rfl

/-- Two states with the same root hashes expose the same data if one is a snapshot of the run that
the other is at. -/
theorem Exposes.exposed (hself : Exposes setup base s s) (ht : Exposes setup base s t)
    (hroot : ∀ a, s.tries.root a = t.tries.root a) (a : Bytes) :
    s.exposed setup a = t.exposed setup a := by
  by_cases ha : a = []
  · simp [AccountsDB.exposed, AccountsDB.loadAccount, ha]
  rw [exposed_eq setup s ha, exposed_eq setup t ha, hroot a]
  cases hr : t.tries.root a with
  | none => rfl
  | some r =>
    have hsr : s.tries.root a = some r := (hroot a).trans hr
    cases hsp : s.dataTries.lookup a <;> cases htp : t.dataTries.lookup a
    · rfl
    · next p =>
      -- the snapshot had the data trie of the base in memory
      have hbase : base.tries.root a = some r := by
        rcases ht.unheld a hsp with hnone | hsame
        · rw [hr] at hnone; cases hnone
        · rw [← hsame, hr]
      have hrec : recreates setup.db r = true := by
        by_contra hfalse
        rw [Bool.not_eq_true] at hfalse
        rw [ht.base_missing a r hbase hfalse] at htp
        cases htp
      simp only [hrec, if_true, ht.coherent a r p hr htp]
    · next p =>
      have hrec : recreates setup.db r = true := by
        by_contra hfalse
        rw [Bool.not_eq_true] at hfalse
        rw [ht.missing a r hr htp hfalse] at hsp
        cases hsp
      simp only [hrec, if_true, hself.coherent a r p hsr hsp]
    · next p q => simp only [hself.coherent a r p hsr hsp, ht.coherent a r q hr htp]

/-- In a run that never saves data anew for an account whose data the journal still holds,
`RevertToSnapshot` gives back the main trie and what `LoadAccount` exposes for every address. -/
theorem rollback_exact (hbase : Fresh base) (hrun : Run setup (KeepsData setup) base s snapshots)
    (ht : t ∈ snapshots) :
    (s.revertToSnapshot t.journalLen).1 = .ok () ∧
      (s.revertToSnapshot t.journalLen).2.tries.accounts = t.tries.accounts ∧
      (s.revertToSnapshot t.journalLen).2.tries.codes = t.tries.codes ∧
      ∀ addr, (s.revertToSnapshot t.journalLen).2.exposed setup addr =
        t.exposed setup addr := by
  have hkeeps := hrun.exposes hbase
  obtain ⟨hok, haccounts, hcodes⟩ :=
    hkeeps.tracks.restores_mainTrie hbase.entries (mem_cons_of_mem _ ht)
  have hback := hkeeps.revertToSnapshot hbase.entries ht
  refine ⟨hok, haccounts, hcodes, hback.self.exposed (hback.exposes t ?_)
    (root_congr haccounts)⟩
  refine mem_cons_of_mem _ (mem_cons_of_mem _ (mem_filter.2 ⟨ht, ?_⟩))
  exact decide_eq_true le_rfl

end Steps

/-! ## Removing an account and saving data for it again -/

/-- The data of the account `[2]` in the last committed state. -/
def committedData : Contents := singleton [9] [5]

/-- A committed state with one account, which has data. -/
def committedDB : AccountsDB Unit :=
  let accounts := singleton [2] ⟨some committedData, [], ()⟩
  ⟨⟨accounts, ∅, fun _ => ∅, ∅⟩, ∅, 0, [], accounts, ∅⟩

def committedSetup : Setup Unit := ⟨markingHasher, fun r => decide (r = committedData), ()⟩

theorem committedDB_fresh : Fresh committedDB :=
  ⟨rfl, rfl, ⟨rfl, fun h entry hentry => absurd hentry (by simp [committedDB])⟩, rfl, rfl⟩

theorem rollback_exact_committed :
    let t := committedDB.exec committedSetup (.save [1] ⟨(), none, ∅⟩)
    let s := t.exec committedSetup (.save [2] ⟨(), none, singleton [9] [6]⟩)
    (s.revertToSnapshot t.journalLen).1 = .ok () ∧
      (s.revertToSnapshot t.journalLen).2.tries.accounts = t.tries.accounts ∧
      (s.revertToSnapshot t.journalLen).2.tries.codes = t.tries.codes ∧
      ∀ addr, (s.revertToSnapshot t.journalLen).2.exposed committedSetup addr =
        t.exposed committedSetup addr := by
  intro t s
  have hfits : ∀ (u : AccountsDB Unit) a data,
      (Op.save a ⟨(), none, data⟩).Fits committedSetup u :=
    fun u a data h s' _ code entry hcode => by cases hcode
  have hfirst : KeepsData committedSetup committedDB (.save [1] ⟨(), none, ∅⟩) :=
    ⟨hfits _ _ _, fun h => h.1 rfl⟩
  have hsecond : KeepsData committedSetup t (.save [2] ⟨(), none, singleton [9] [6]⟩) := by
    refine ⟨hfits _ _ _, fun h => ?_⟩
    obtain ⟨h', s', hload, hnone⟩ := h.2.1
    cases hload
    cases hnone
  exact rollback_exact committedDB_fresh
    (.step (.journalLen (.step .start hfirst)) hsecond) mem_cons_self

/-- The account `[2]` is removed and then saved with other data.  After the rollback it has its old
root hash, but `LoadAccount` exposes an empty data trie. -/
theorem recreated_account_loses_data :
    let t := committedDB.exec committedSetup (.save [1] ⟨(), none, ∅⟩)
    let removed := t.exec committedSetup (.remove [2])
    let s := removed.exec committedSetup (.save [2] ⟨(), none, singleton [9] [6]⟩)
    t.exposed committedSetup [2] = .ok (some committedData) ∧
      (s.revertToSnapshot t.journalLen).2.tries.root [2] = some committedData ∧
      (s.revertToSnapshot t.journalLen).2.exposed committedSetup [2] = .ok (some ∅) := by
  refine ⟨rfl, rfl, rfl⟩

end KleverGo.StateDB
