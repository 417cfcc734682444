import KleverGo.Transactions.Rollback

/-!
# Ledgers that no call can tell apart

The handler that a call gets for an address is the one in the cache, or one of the stored account.
Two sides are alike when they store the same accounts and give the same handlers; which of these are
already in the cache does not matter.

* `handler_write`, `saveUser_effect`, `accounts_saveAll`, ...: what each operation of the cacher does
  to the accounts and the handlers.
* `processAndRemoveBadTransaction_lockstep`: **a transaction ends the same way on ledgers that are
  alike, and leaves ledgers that are alike.**
-/

namespace KleverGo.Processing

open Transactions Process Ledger Function Option

/-! ## Sides -/

section
variable {F : Type}

def accounts (c : CachedDB F) : Bytes → Option (Stored F) := c.db.tries.mainTrie

/-- The handler that a call gets for an address. -/
def handler (c : CachedDB F) (addr : Bytes) : Option (Handler F) :=
  (c.cache.lookup addr).or ((accounts c addr).map CachedDB.handlerOf)

/-- The same accounts and the same handlers. -/
structure AlikeSide (c c' : CachedDB F) : Prop where
  accounts : accounts c = accounts c'
  handlers : handler c = handler c'

variable {c c' : CachedDB F} {addr : Bytes} {h : Handler F}

theorem handler_of_lookup (hl : c.cache.lookup addr = some h) : handler c addr = some h := by
  rw [handler, hl, some_or]

theorem handler_of_none (hl : c.cache.lookup addr = none) :
    handler c addr = (accounts c addr).map CachedDB.handlerOf := by
  rw [handler, hl, none_or]

theorem handler_of_nil (hc : c.cache = []) :
    handler c = fun a => (accounts c a).map CachedDB.handlerOf :=
  funext fun a => handler_of_none (by rw [hc]; rfl)

/-- Sides with empty caches are alike when they store the same accounts. -/
theorem AlikeSide.of_nil (hc : c.cache = []) (hc' : c'.cache = [])
    (haccounts : Processing.accounts c = Processing.accounts c') : AlikeSide c c' :=
  ⟨haccounts, by rw [handler_of_nil hc, handler_of_nil hc', haccounts]⟩

theorem lookup_handOut (hl : c.cache.lookup addr = none) (a : Bytes) :
    (c.handOut addr h).cache.lookup a = if a = addr then some h else c.cache.lookup a := by
  change (c.cache ++ [(addr, h)]).lookup a = _
  rw [List.lookup_append]
  by_cases ha : a = addr
  · rw [ha, hl, if_pos rfl, none_or, List.lookup_cons, beq_self_eq_true]
  · rw [if_neg ha, List.lookup_cons, beq_false_of_ne ha]
    exact or_none

theorem handler_handOut (hl : c.cache.lookup addr = none) :
    handler (c.handOut addr h) = update (handler c) addr (some h) := by
  funext a
  rw [handler, lookup_handOut hl]
  by_cases ha : a = addr
  · rw [if_pos ha, ha, update_self, some_or]
  · rw [if_neg ha, update_of_ne ha]
    rfl

theorem lookup_write (addr : Bytes) (fields : F) (dirtyData : List (Bytes × Bytes)) (a : Bytes) :
    (c.write addr fields dirtyData).cache.lookup a =
      (c.cache.lookup a).map fun h =>
        if a = addr then ⟨fields, h.rootHash, dirtyData⟩ else h := by
  unfold CachedDB.write
  induction c.cache with
  | nil => rfl
  | cons e rest ih =>
    obtain ⟨k, v⟩ := e
    rw [List.map_cons, List.lookup_cons, List.lookup_cons]
    by_cases ha : a = k
    · rw [ha, beq_self_eq_true]
      rfl
    · rw [beq_false_of_ne ha]
      exact ih

theorem handler_write (hl : c.cache.lookup addr = some h) (h' : Handler F)
    (hroot : h'.rootHash = h.rootHash) :
    handler (c.write addr h'.fields h'.dirtyData) =
      update (handler c) addr (some h') := by
  funext a
  rw [handler, lookup_write]
  by_cases ha : a = addr
  · rw [ha, hl, update_self, map_some, if_pos rfl, some_or, ← hroot]
  · simp only [if_neg ha, map_id', update_of_ne ha]
    rfl

theorem handler_write_of_none (hl : c.cache.lookup addr = none) (fields : F)
    (dirtyData : List (Bytes × Bytes)) : handler (c.write addr fields dirtyData) = handler c := by
  funext a
  rw [handler, lookup_write]
  by_cases ha : a = addr
  · rw [ha, hl]
    exact (handler_of_none hl).symm
  · simp only [if_neg ha, map_id']
    rfl

theorem lookup_saveUser (a : Bytes) :
    (c.saveUser addr h).1.cache.lookup a =
      if a = addr then none else c.cache.lookup a := by
  change (c.cache.filter fun e => e.1 ≠ addr).lookup a = _
  induction c.cache with
  | nil => simp
  | cons e rest ih =>
    obtain ⟨k, v⟩ := e
    by_cases hk : k = addr
    · rw [List.filter_cons_of_neg (by simpa using hk), ih]
      by_cases ha : a = addr
      · rw [if_pos ha, if_pos ha]
      · rw [if_neg ha, if_neg ha, List.lookup_cons, beq_false_of_ne (hk ▸ ha)]
    rw [List.filter_cons_of_pos (by simpa using hk), List.lookup_cons, List.lookup_cons]
    by_cases ha : a = k
    · rw [ha, beq_self_eq_true, if_neg hk]
    · rw [beq_false_of_ne ha]
      exact ih

theorem saveUser_effect (hc : Coherent c) (hfresh : Fresh c.db addr h) :
    accounts (c.saveUser addr h).1 = update (accounts c) addr (some (savedOf h)) ∧
    handler (c.saveUser addr h).1 =
      update (handler c) addr (some (CachedDB.handlerOf (savedOf h))) := by
  have haccounts : accounts (c.saveUser addr h).1 =
      update (accounts c) addr (some (savedOf h)) :=
    (saveAccount_spec hc.synced hfresh).1
  refine ⟨haccounts, funext fun a => ?_⟩
  rw [handler, lookup_saveUser, haccounts]
  by_cases ha : a = addr
  · rw [ha, if_pos rfl, update_self, update_self, none_or, map_some]
  · rw [if_neg ha, update_of_ne ha, update_of_ne ha]
    rfl

theorem accounts_saveAll (hc : Coherent c) :
    accounts c.saveAll = fun a => (handler c a).map savedOf := by
  funext a
  refine (hc.saveAll.2 a).trans ?_
  cases hl : c.cache.lookup a with
  | some h => rw [handler_of_lookup hl]; rfl
  | none =>
    rw [handler_of_none hl, map_map]
    exact map_id'.symm

theorem saveUser_handler (hc : Coherent c) (hfresh : Fresh c.db addr h) :
    (c.saveUser addr h).2 = CachedDB.handlerOf (savedOf h) := by
  have hold : c.db.tries.dataTrie addr h.rootHash = h.rootHash.getD fun _ => [] := by
    rw [hfresh]
    exact hc.synced.dataTrie addr
  change (c.db.saveAccount addr h).2 = _
  unfold AccountsDB.saveAccount savedOf CachedDB.handlerOf
  split
  · rename_i hnil
    obtain ⟨fields, rootHash, dirtyData⟩ := h
    simp_all
  · simp [hold]

/-- A call that returns a handler which the side already has. -/
structure Reads (c : CachedDB F) (addr : Bytes) (h : Handler F) (k : CachedDB F) : Prop where
  accounts : Processing.accounts k = Processing.accounts c
  handlers : handler k = handler c
  lookup : k.cache.lookup addr = some h

theorem getExisting_nil (hc : Coherent c) : c.getExisting [] = .error .ErrNilAddress := by
  have hnone : c.cache.lookup [] = none := by
    rw [List.lookup_eq_none_iff]
    exact fun e he => bne_iff_ne.2 (hc.named e he).symm
  unfold CachedDB.getExisting CachedDB.handle
  rw [hnone]
  rfl

theorem getExisting_of_none (ha : addr ≠ []) (hh : handler c addr = none) :
    c.getExisting addr = .error .ErrAccNotFound := by
  obtain ⟨hl, haccount⟩ := or_eq_none_iff.1 hh
  rw [map_eq_none_iff] at haccount
  have haccount' : c.db.tries.mainTrie addr = none := haccount
  unfold CachedDB.getExisting CachedDB.handle
  rw [hl]
  simp only [reject, if_neg ha, haccount']
  rfl

theorem handle_of_some {read : Option (Stored F) → Except Err (Handler F)}
    (hread : ∀ account, read (some account) = .ok (CachedDB.handlerOf account)) (ha : addr ≠ [])
    (hh : handler c addr = some h) : ∃ k, c.handle addr read = .ok (h, k) ∧ Reads c addr h k := by
  unfold CachedDB.handle
  cases hl : c.cache.lookup addr with
  | some h0 =>
    rw [handler_of_lookup hl] at hh
    cases hh
    exact ⟨c, rfl, rfl, rfl, hl⟩
  | none =>
    have hstored := (handler_of_none hl).symm.trans hh
    obtain ⟨account, haccount, rfl⟩ := map_eq_some_iff.1 hstored
    have haccount' : c.db.tries.mainTrie addr = some account := haccount
    refine ⟨c.handOut addr (CachedDB.handlerOf account), ?_, rfl, ?_, ?_⟩
    · simp only [reject, if_neg ha, haccount', hread]
      rfl
    · rw [handler_handOut hl, ← hh, update_eq_self]
    · rw [lookup_handOut hl, if_pos rfl]

theorem getExisting_of_some (ha : addr ≠ []) (hh : handler c addr = some h) :
    ∃ k, c.getExisting addr = .ok (h, k) ∧ Reads c addr h k :=
  handle_of_some (fun _ => rfl) ha hh

theorem AlikeSide.reads {k k' : CachedDB F} (halike : AlikeSide c c') (hk : Reads c addr h k)
    (hk' : Reads c' addr h k') : AlikeSide k k' :=
  ⟨hk.accounts.trans (halike.accounts.trans hk'.accounts.symm),
    hk.handlers.trans (halike.handlers.trans hk'.handlers.symm)⟩

/-- Sides that are alike return the same error, or the same handler and stay alike. -/
theorem AlikeSide.getExisting (halike : AlikeSide c c') (hc : Coherent c) (hc' : Coherent c')
    (addr : Bytes) :
    (∃ e, c.getExisting addr = .error e ∧ c'.getExisting addr = .error e) ∨
    ∃ h k k', c.getExisting addr = .ok (h, k) ∧ c'.getExisting addr = .ok (h, k') ∧
      AlikeSide k k' ∧ k.cache.lookup addr = some h ∧ k'.cache.lookup addr = some h := by
  by_cases ha : addr = []
  · subst ha
    exact .inl ⟨_, getExisting_nil hc, getExisting_nil hc'⟩
  cases hh : handler c addr with
  | none => exact .inl ⟨_, getExisting_of_none ha hh, getExisting_of_none ha (halike.handlers ▸ hh)⟩
  | some h =>
    obtain ⟨k, hget, hk⟩ := getExisting_of_some ha hh
    obtain ⟨k', hget', hk'⟩ := getExisting_of_some ha (halike.handlers ▸ hh)
    exact .inr ⟨h, k, k', hget, hget', halike.reads hk hk', hk.lookup, hk'.lookup⟩

theorem load_of_some (new : F) (ha : addr ≠ []) (hh : handler c addr = some h) :
    ∃ k, c.load new addr = .ok (h, k) ∧ Reads c addr h k :=
  handle_of_some (fun _ => rfl) ha hh

theorem load_of_none (new : F) (ha : addr ≠ []) (hh : handler c addr = none) :
    c.load new addr = .ok (⟨new, none, []⟩, c.handOut addr ⟨new, none, []⟩) ∧
    handler (c.handOut addr ⟨new, none, []⟩) =
      update (handler c) addr (some ⟨new, none, []⟩) := by
  obtain ⟨hl, haccount⟩ := or_eq_none_iff.1 hh
  rw [map_eq_none_iff] at haccount
  have haccount' : c.db.tries.mainTrie addr = none := haccount
  refine ⟨?_, handler_handOut hl⟩
  unfold CachedDB.load CachedDB.handle
  rw [hl]
  simp only [reject, if_neg ha, haccount', elim_none]
  rfl

end

/-! ## Ledgers -/

variable {X K P PublicKey Cost : Type}

/-- Two ledgers between calls that no call can tell apart; fees are not read. -/
structure Ledger.Alike (l l' : Ledger X K P) : Prop where
  sound : l.Sound
  sound' : l'.Sound
  users : AlikeSide l.users l'.users
  kapps : AlikeSide l.kapps l'.kapps
  peers : AlikeSide l.peers l'.peers
  gasUsed : l.gasUsed = l'.gasUsed

/-- Ledgers that are alike, and a fresh handler of a user that both or none of them have cached. -/
structure Owned (addr : Bytes) (h : Handler (UserData X)) (l l' : Ledger X K P) : Prop where
  alike : l.Alike l'
  fresh : Fresh l.users.db addr h
  cached : (l.users.cache.lookup addr).isSome = (l'.users.cache.lookup addr).isSome

section
variable {l l' : Ledger X K P} {addr : Bytes} {h : Handler (UserData X)}

theorem Owned.fresh' (ho : Owned addr h l l') : Fresh l'.users.db addr h := by
  have haccounts : l.users.db.tries.mainTrie = l'.users.db.tries.mainTrie := ho.alike.users.accounts
  have hfresh := ho.fresh
  unfold Fresh Tries.rootHash at hfresh ⊢
  rw [← haccounts]
  exact hfresh

theorem Ledger.Sound.setUsers (hl : l.Sound) {users : CachedDB (UserData X)}
    (h : Transactions.Follows l.users users) : ({ l with users := users } : Ledger X K P).Sound :=
  ⟨hl.users.follows h, hl.kapps, hl.peers⟩

theorem Ledger.Sound.setKApps (hl : l.Sound) {kapps : CachedDB K}
    (h : Transactions.Follows l.kapps kapps) : ({ l with kapps := kapps } : Ledger X K P).Sound :=
  ⟨hl.users, hl.kapps.follows h, hl.peers⟩

theorem getExistingUser_lockstep (addr : Bytes) :
    Lockstep Alike (getExistingUser addr : Proc X K P (Handler (UserData X)))
      (Owned addr) Alike := by
  intro l l' hl
  unfold getExistingUser Process.attempt
  obtain ⟨e, hget, hget'⟩ | ⟨h, k, k', hget, hget', hk, hlookup, hlookup'⟩ :=
    hl.users.getExisting hl.sound.users.toCoherent hl.sound'.users.toCoherent addr
  · simp only [hget, hget']
    exact ⟨rfl, hl⟩
  have hgives := hl.sound.users.gives (getExisting_gives hget)
  have hgives' := hl.sound'.users.gives (getExisting_gives hget')
  simp only [hget, hget']
  refine ⟨rfl, ⟨hl.sound.setUsers hgives.1, hl.sound'.setUsers hgives'.1, hk, hl.kapps,
    hl.peers, hl.gasUsed⟩, hgives.2, ?_⟩
  rw [hlookup, hlookup']

/-- Both ledgers have the handler of the fee pools in the cache. -/
def Pooled (app : Handler K) (l l' : Ledger X K P) : Prop :=
  l.kapps.cache.lookup KDAFeesPoolKAppAddress = some app ∧
  l'.kapps.cache.lookup KDAFeesPoolKAppAddress = some app

theorem lookup_gives {F : Type} {c k : CachedDB F} {a b : Bytes} {u v : Handler F}
    (hg : Gives c a u k) (hl : c.cache.lookup b = some v) : k.cache.lookup b = some v := by
  cases hg with
  | cached _ => exact hl
  | read hnone =>
    have hb : b ≠ a := fun heq => by simp [← heq, hl] at hnone
    rw [lookup_handOut hnone, if_neg hb, hl]

theorem Owned.setKApps {kapps kapps' : CachedDB K} (ho : Owned addr h l l')
    (hfollows : Transactions.Follows l.kapps kapps) (hfollows' : Transactions.Follows l'.kapps kapps')
    (halike : AlikeSide kapps kapps') :
    Owned addr h { l with kapps := kapps } { l' with kapps := kapps' } :=
  ⟨⟨ho.alike.sound.setKApps hfollows, ho.alike.sound'.setKApps hfollows', ho.alike.users, halike,
    ho.alike.peers, ho.alike.gasUsed⟩, ho.fresh, ho.cached⟩

theorem getFeesPoolKApp_lockstep (env : Env K PublicKey Cost) :
    Lockstep (Owned addr h) (getFeesPoolKApp env : Proc X K P (Handler K))
      (fun app l l' => Owned addr h l l' ∧ Pooled app l l') Alike := by
  intro l l' ho
  have hnamed : KDAFeesPoolKAppAddress ≠ [] := by decide
  have hc := ho.alike.sound.kapps.toCoherent
  have hc' := ho.alike.sound'.kapps.toCoherent
  have halike := ho.alike.kapps
  unfold getFeesPoolKApp loadKApp Process.attempt
  cases hh : handler l.kapps KDAFeesPoolKAppAddress with
  | none =>
    obtain ⟨hload, hhandler⟩ := load_of_none env.newFeesPoolKApp hnamed hh
    obtain ⟨hload', hhandler'⟩ := load_of_none env.newFeesPoolKApp hnamed (halike.handlers ▸ hh)
    simp only [hload, hload']
    refine ⟨rfl, ho.setKApps (hc.gives (load_gives hload)).1 (hc'.gives (load_gives hload')).1
      ⟨halike.accounts, ?_⟩, ?_, ?_⟩
    · rw [hhandler, hhandler', halike.handlers]
    · rw [lookup_handOut (or_eq_none_iff.1 hh).1, if_pos rfl]
    · have hnone := (or_eq_none_iff.1 (halike.handlers ▸ hh :
        handler l'.kapps KDAFeesPoolKAppAddress = none)).1
      rw [lookup_handOut hnone, if_pos rfl]
  | some app =>
    obtain ⟨k, hload, hreads⟩ := load_of_some env.newFeesPoolKApp hnamed hh
    obtain ⟨k', hload', hreads'⟩ :=
      load_of_some env.newFeesPoolKApp hnamed (halike.handlers ▸ hh)
    simp only [hload, hload']
    exact ⟨rfl, ho.setKApps (hc.gives (load_gives hload)).1 (hc'.gives (load_gives hload')).1
      (halike.reads hreads hreads'), hreads.lookup, hreads'.lookup⟩

theorem getExistingKapp_lockstep (a : Bytes) (app : Handler K) :
    Lockstep (fun l l' => Owned addr h l l' ∧ Pooled app l l')
      (getExistingKapp a : Proc X K P (Handler K))
      (fun _ l l' => Owned addr h l l' ∧ Pooled app l l') Alike := by
  rintro l l' ⟨ho, hpool⟩
  have hkapps := ho.alike.sound.kapps
  have hkapps' := ho.alike.sound'.kapps
  unfold getExistingKapp Process.attempt
  obtain ⟨e, hget, hget'⟩ | ⟨u, k, k', hget, hget', hk, -⟩ :=
    ho.alike.kapps.getExisting hkapps.toCoherent hkapps'.toCoherent a
  · simp only [hget, hget']
    exact ⟨rfl, ho.alike⟩
  have hgives := getExisting_gives hget
  have hgives' := getExisting_gives hget'
  simp only [hget, hget']
  exact ⟨rfl, ho.setKApps (hkapps.gives hgives).1 (hkapps'.gives hgives').1 hk,
    lookup_gives hgives hpool.1, lookup_gives hgives' hpool.2⟩

theorem Owned.touchUser (ho : Owned addr h l l') {h' : Handler (UserData X)}
    (hroot : h'.rootHash = h.rootHash) :
    Owned addr h' (l.touchUser addr h') (l'.touchUser addr h') := by
  have hsound := ho.alike.sound
  have hsound' := ho.alike.sound'
  have hlookups : ∀ c : CachedDB (UserData X),
      ((c.write addr h'.fields h'.dirtyData).cache.lookup addr).isSome =
        (c.cache.lookup addr).isSome := by
    intro c
    rw [lookup_write, isSome_map]
  have hhandlers : handler (l.users.write addr h'.fields h'.dirtyData) =
      handler (l'.users.write addr h'.fields h'.dirtyData) := by
    cases hl : l.users.cache.lookup addr with
    | none =>
      have hl' : l'.users.cache.lookup addr = none := by
        rw [← not_isSome_iff_eq_none, ← ho.cached, hl]
        exact Bool.false_ne_true
      rw [handler_write_of_none hl, handler_write_of_none hl', ho.alike.users.handlers]
    | some u =>
      obtain ⟨u', hl'⟩ : ∃ u', l'.users.cache.lookup addr = some u' := by
        rw [← isSome_iff_exists, ← ho.cached, hl]
        rfl
      have hu := (hsound.users.lookup hl).trans ho.fresh.symm
      have hu' := (hsound'.users.lookup hl').trans ho.fresh'.symm
      rw [handler_write hl h' (hroot.trans hu.symm), handler_write hl' h' (hroot.trans hu'.symm),
        ho.alike.users.handlers]
  refine ⟨⟨hsound.setUsers (hsound.users.write ..), hsound'.setUsers (hsound'.users.write ..),
    ⟨ho.alike.users.accounts, hhandlers⟩, ho.alike.kapps, ho.alike.peers, ho.alike.gasUsed⟩,
    hroot.trans ho.fresh, ?_⟩
  exact (hlookups l.users).trans (ho.cached.trans (hlookups l'.users).symm)

theorem Owned.touchKApp (ho : Owned addr h l l') {app app' : Handler K} (hpool : Pooled app l l')
    (hroot : app'.rootHash = app.rootHash) :
    Owned addr h (l.touchKApp KDAFeesPoolKAppAddress app')
      (l'.touchKApp KDAFeesPoolKAppAddress app') := by
  refine ho.setKApps (ho.alike.sound.kapps.write ..) (ho.alike.sound'.kapps.write ..)
    ⟨ho.alike.kapps.accounts, ?_⟩
  rw [handler_write hpool.1 app' hroot, handler_write hpool.2 app' hroot, ho.alike.kapps.handlers]

theorem saveUser_lockstep {C : CachedDB K → CachedDB K → Prop} :
    Lockstep (fun l l' => Owned addr h l l' ∧ C l.kapps l'.kapps)
      (saveUser addr h : Proc X K P (Handler (UserData X)))
      (fun h' l l' => Owned addr h' l l' ∧ C l.kapps l'.kapps) Alike := by
  rintro l l' ⟨ho, hC⟩
  have hc := ho.alike.sound.users.toCoherent
  have hc' := ho.alike.sound'.users.toCoherent
  obtain ⟨haccounts, hhandlers⟩ := saveUser_effect hc ho.fresh
  obtain ⟨haccounts', hhandlers'⟩ := saveUser_effect hc' ho.fresh'
  unfold saveUser
  rw [saveUser_handler hc ho.fresh, saveUser_handler hc' ho.fresh']
  refine ⟨rfl, ⟨⟨?_, ?_, ⟨?_, ?_⟩, ho.alike.kapps, ho.alike.peers, ho.alike.gasUsed⟩, ?_, ?_⟩, hC⟩
  · exact ho.alike.sound.setUsers (hc.saveUser ho.fresh)
  · exact ho.alike.sound'.setUsers (hc'.saveUser ho.fresh')
  · rw [haccounts, haccounts', ho.alike.users.accounts]
  · rw [hhandlers, hhandlers', ho.alike.users.handlers]
  · have hfresh := (saveAccount_handler l.users.db addr h).1
    rwa [show (l.users.db.saveAccount addr h).2 = _ from saveUser_handler hc ho.fresh] at hfresh
  · rw [lookup_saveUser, lookup_saveUser, if_pos rfl, if_pos rfl]

theorem Ledger.Alike.saveAll (hl : l.Alike l') : l.saveAll.Alike l'.saveAll := by
  have hside : ∀ {F : Type} {c c' : CachedDB F}, Coherent c → Coherent c' → AlikeSide c c' →
      AlikeSide c.saveAll c'.saveAll := by
    intro F c c' hc hc' h
    refine .of_nil rfl rfl ?_
    rw [accounts_saveAll hc, accounts_saveAll hc', h.handlers]
  exact ⟨hl.sound.follows hl.sound.refl.saveAll, hl.sound'.follows hl.sound'.refl.saveAll,
    hside hl.sound.users.toCoherent hl.sound'.users.toCoherent hl.users,
    hside hl.sound.kapps.toCoherent hl.sound'.kapps.toCoherent hl.kapps,
    hside hl.sound.peers.toCoherent hl.sound'.peers.toCoherent hl.peers, hl.gasUsed⟩

end

/-! ## Admission in lockstep -/

section
variable (env : Env K PublicKey Cost) {addr : Bytes}

theorem swap_lockstep (sender : Handler (UserData X)) (klvAmount : Int64) (info : KDAFee) :
    Lockstep (Owned addr sender)
      (swap env addr sender klvAmount info : Proc X K P (Handler (UserData X)))
      (Owned addr) Alike := by
  refine .bind (getFeesPoolKApp_lockstep env) fun app => ?_
  refine .lift_bind (fun pool _ => ?_) fun _ _ ho => ho.1.alike
  refine .bind (getExistingKapp_lockstep _ app) fun kdaKapp => ?_
  refine .lift_bind (fun _ _ => ?_) fun _ _ ho => ho.1.alike
  refine .lift_bind (fun sender1 hsub => ?_) fun _ _ ho => ho.1.alike
  have htouch : ∀ {h h' : Handler (UserData X)}, h'.rootHash = h.rootHash →
      Lockstep (fun l l' => Owned addr h l l' ∧ Pooled app l l')
        (.modify (·.touchUser addr h') : Proc X K P Unit)
        (fun _ l l' => Owned addr h' l l' ∧ Pooled app l l') Alike :=
    fun hroot => .modify fun _ _ ho => ⟨ho.1.touchUser hroot, ho.2⟩
  refine .bind (htouch (subFromBalance_spec hsub).1) fun _ => ?_
  refine .lift_bind (fun _ _ => ?_) fun _ _ ho => ho.1.alike
  refine .lift_bind (fun sender2 hadd => ?_) fun _ _ ho => ho.1.alike
  refine .bind (htouch (addToBalance_spec hadd).1) fun _ => ?_
  refine .bind (saveUser_lockstep (C := fun k k' =>
    k.cache.lookup KDAFeesPoolKAppAddress = some app ∧
    k'.cache.lookup KDAFeesPoolKAppAddress = some app)) fun sender3 => ?_
  refine .bind (Q := fun _ => Owned addr sender3)
    (.modify fun _ _ ho => ho.1.touchKApp ho.2 rfl) fun _ => ?_
  exact .pure fun _ _ ho => ho

theorem swapFees_lockstep (tx : Transaction) (owner : Handler (UserData X)) :
    Lockstep (Owned tx.sender owner) (swapFees env tx owner : Proc X K P (Handler (UserData X)))
      (Owned tx.sender) Alike := by
  unfold swapFees
  cases tx.kdaFee with
  | none => exact .pure fun _ _ ho => ho
  | some fee => exact swap_lockstep env owner _ fee

theorem processBandwidthFee_lockstep (tx : Tx X K P) (owner : Handler (UserData X)) :
    Lockstep (Owned tx.sender owner) (processBandwidthFee env tx owner)
      (fun _ l l' => l.Alike l' ∧ l.CachesEmpty ∧ l'.CachesEmpty) Alike := by
  refine .bind (swapFees_lockstep env _ owner) fun owner1 => ?_
  refine .lift_bind (fun owner2 hconsume => ?_) fun _ _ ho => ho.alike
  have hincreased : ∀ {l l' : Ledger X K P}, Owned tx.sender owner1 l l' →
      Owned tx.sender (increaseNonce owner2) l l' := fun ho =>
    ⟨ho.alike, (consumeFee_spec hconsume).1.trans ho.fresh, ho.cached⟩
  refine .bind (fun l l' ho =>
    saveUser_lockstep (C := fun _ _ => True) l l' ⟨hincreased ho, trivial⟩) fun _ => ?_
  refine .bind (Q := fun _ => Alike) (.modify fun l l' ho => ?_) fun _ =>
    .modify fun l l' hl => ⟨hl.saveAll, ⟨rfl, rfl, rfl⟩, ⟨rfl, rfl, rfl⟩⟩
  obtain ⟨hsound, hsound', husers, hkapps, hpeers, hgas⟩ := ho.1.alike
  exact ⟨⟨hsound.users, hsound.kapps, hsound.peers⟩, ⟨hsound'.users, hsound'.kapps, hsound'.peers⟩,
    husers, hkapps, hpeers, hgas⟩

theorem checkPaymentFeeBalance_lockstep (tx : Transaction) (owner : Handler (UserData X)) :
    Lockstep (Owned addr owner) (checkPaymentFeeBalance env tx owner : Proc X K P Unit)
      (fun _ => Owned addr owner) Alike := by
  refine .lift_bind (fun _ _ => ?_) fun _ _ ho => ho.alike
  refine .bind (Q := fun _ => Owned addr owner) ?_
    fun r => .lift (fun _ _ _ ho => ho) fun _ _ ho => ho.alike
  unfold computeKDAFees
  cases tx.kdaFee with
  | none => exact .pure fun _ _ ho => ho
  | some fee =>
    dsimp only
    split
    · refine .bind (getFeesPoolKApp_lockstep env) fun app => ?_
      exact .lift_bind (fun _ _ => .pure fun _ _ ho => ho.1) fun _ _ ho => ho.1.alike
    · exact .pure fun _ _ ho => ho

theorem enterBlock_lockstep (tx : Tx X K P) :
    Lockstep Alike (enterBlock env tx)
      (fun _ l l' => l.Alike l' ∧ l.CachesEmpty ∧ l'.CachesEmpty) Alike := by
  refine .bind (Q := fun r => Owned tx.sender r.1) ?_ fun r => ?_
  · refine .bind (getExistingUser_lockstep _) fun owner => ?_
    refine .lift_bind (fun cost _ => ?_) fun _ _ ho => ho.alike
    refine .bind (checkPaymentFeeBalance_lockstep env _ owner) fun _ => ?_
    exact .lift_bind (fun gasLimit _ => .pure fun _ _ ho => ho) fun _ _ ho => ho.alike
  obtain ⟨owner, gasLimit⟩ := r
  refine .bind (Q := fun _ => Owned tx.sender owner) (fun l l' ho => ?_) fun _ => ?_
  · unfold Process.attempt
    dsimp only
    rw [ho.alike.gasUsed]
    cases reject (env.maxGasLimitPerBlock < l'.gasUsed + gasLimit)
        Err.ErrMaxGasLimitPerBlockExceeded with
    | error e => exact ⟨rfl, ho.alike⟩
    | ok u => exact ⟨rfl, ho⟩
  · refine .bind (processBandwidthFee_lockstep env tx owner) fun _ => .modify fun l l' hl => ?_
    obtain ⟨⟨hsound, hsound', husers, hkapps, hpeers, hgas⟩, hempty, hempty'⟩ := hl
    exact ⟨⟨⟨hsound.users, hsound.kapps, hsound.peers⟩,
      ⟨hsound'.users, hsound'.kapps, hsound'.peers⟩, husers, hkapps, hpeers,
      congrArg (· + gasLimit) hgas⟩, ⟨hempty.users, hempty.kapps, hempty.peers⟩,
      ⟨hempty'.users, hempty'.kapps, hempty'.peers⟩⟩

end

/-! ## Execution in lockstep -/

section
variable {F : Type} {c c' : CachedDB F}

theorem view_eq_iff : view c = view c' ↔ accounts c = accounts c' ∧ c.cache = c'.cache :=
  Prod.mk_inj

/-- What a call that returns a handler shows of its end. -/
def shown (r : Except Err (Handler F × CachedDB F)) :
    Except Err (Handler F × (Bytes → Option (Stored F)) × List (Bytes × Handler F)) :=
  r.map fun r => (r.1, view r.2)

theorem shown_handle (hv : view c = view c') (addr : Bytes)
    (read : Option (Stored F) → Except Err (Handler F)) :
    shown (c.handle addr read) = shown (c'.handle addr read) := by
  obtain ⟨haccounts, hcache⟩ := view_eq_iff.1 hv
  have hmain : c.db.tries.mainTrie = c'.db.tries.mainTrie := haccounts
  unfold CachedDB.handle
  rw [hcache, hmain]
  cases c'.cache.lookup addr with
  | some h => exact congrArg (fun v => Except.ok (h, v)) hv
  | none =>
    by_cases ha : addr = []
    · simp only [reject, if_pos ha]
      rfl
    simp only [reject, if_neg ha]
    cases read (c'.db.tries.mainTrie addr) with
    | error e => rfl
    | ok h =>
      refine congrArg (fun v => Except.ok (h, v)) ?_
      exact view_eq_iff.2 ⟨haccounts, congrArg (· ++ _) hcache⟩

/-- The side after a call shows the same if the call did, also when it failed. -/
theorem view_of_shown (hv : view c = view c') {r r' : Except Err (Handler F × CachedDB F)}
    (h : shown r = shown r') :
    view (r.toOption.elim c Prod.snd) = view (r'.toOption.elim c' Prod.snd) := by
  cases r with
  | error e =>
    cases r' with
    | error e' => exact hv
    | ok a => cases h
  | ok a =>
    cases r' with
    | error e' => cases h
    | ok b => exact (Prod.mk_inj.1 (Except.ok.inj h)).2

/-- An operation of a KApp shows the same on sides that show the same. -/
theorem view_exec (hc : Coherent c) (hc' : Coherent c') (hv : view c = view c') (op : SideOp F) :
    view (c.exec op) = view (c'.exec op) := by
  obtain ⟨haccounts, hcache⟩ := view_eq_iff.1 hv
  cases op with
  | getExisting addr => exact view_of_shown hv (shown_handle hv addr _)
  | load new addr => exact view_of_shown hv (shown_handle hv addr _)
  | write addr fields dirtyData =>
    refine view_eq_iff.2 ⟨haccounts, ?_⟩
    simp only [CachedDB.exec, CachedDB.write, hcache]
  | save addr =>
    rw [CachedDB.exec, CachedDB.exec, hcache]
    cases hl : c'.cache.lookup addr with
    | none => exact hv
    | some h =>
      have hfresh := hc.lookup (hcache ▸ hl : c.cache.lookup addr = some h)
      refine view_eq_iff.2 ⟨?_, ?_⟩
      · exact (saveUser_effect hc hfresh).1.trans
          ((congrArg (update · addr _) haccounts).trans
            (saveUser_effect hc' (hc'.lookup hl)).1.symm)
      · simp only [elim_some, CachedDB.saveUser, hcache]

theorem view_saveAll (hc : Coherent c) (hc' : Coherent c') (hv : view c = view c') :
    view c.saveAll = view c'.saveAll := by
  obtain ⟨haccounts, hcache⟩ := view_eq_iff.1 hv
  refine view_eq_iff.2 ⟨?_, rfl⟩
  rw [accounts_saveAll hc, accounts_saveAll hc']
  unfold handler
  rw [haccounts, hcache]

end

/-- Two ledgers that show the same. -/
structure Ledger.Twin (l l' : Ledger X K P) : Prop where
  sound : l.Sound
  sound' : l'.Sound
  users : Processing.view l.users = Processing.view l'.users
  kapps : Processing.view l.kapps = Processing.view l'.kapps
  peers : Processing.view l.peers = Processing.view l'.peers
  gasUsed : l.gasUsed = l'.gasUsed

namespace Ledger.Twin

variable {l l' : Ledger X K P}

theorem view_eq (h : l.Twin l') : l.view = l'.view := by
  unfold Ledger.view
  rw [h.users, h.kapps, h.peers]

theorem of_alike (h : l.Alike l') : l.resetAll.Twin l'.resetAll :=
  ⟨h.sound.follows h.sound.refl.resetAll, h.sound'.follows h.sound'.refl.resetAll,
    view_eq_iff.2 ⟨h.users.accounts, rfl⟩, view_eq_iff.2 ⟨h.kapps.accounts, rfl⟩,
    view_eq_iff.2 ⟨h.peers.accounts, rfl⟩, h.gasUsed⟩

theorem alike (h : l.Twin l') : l.resetAll.Alike l'.resetAll :=
  ⟨h.sound.follows h.sound.refl.resetAll, h.sound'.follows h.sound'.refl.resetAll,
    .of_nil rfl rfl (view_eq_iff.1 h.users).1, .of_nil rfl rfl (view_eq_iff.1 h.kapps).1,
    .of_nil rfl rfl (view_eq_iff.1 h.peers).1, h.gasUsed⟩

theorem exec (h : l.Twin l') (op : LedgerOp X K P) : (l.exec op).Twin (l'.exec op) := by
  have hsound := h.sound.follows (h.sound.refl.exec op)
  have hsound' := h.sound'.follows (h.sound'.refl.exec op)
  cases op with
  | user op =>
    exact ⟨hsound, hsound', view_exec h.sound.users.toCoherent h.sound'.users.toCoherent h.users op,
      h.kapps, h.peers, h.gasUsed⟩
  | kapp op =>
    exact ⟨hsound, hsound', h.users,
      view_exec h.sound.kapps.toCoherent h.sound'.kapps.toCoherent h.kapps op, h.peers, h.gasUsed⟩
  | peer op =>
    exact ⟨hsound, hsound', h.users, h.kapps,
      view_exec h.sound.peers.toCoherent h.sound'.peers.toCoherent h.peers op, h.gasUsed⟩

theorem execAll (h : l.Twin l') (ops : List (LedgerOp X K P)) :
    (ops.foldl Ledger.exec l).Twin (ops.foldl Ledger.exec l') := by
  induction ops generalizing l l' with
  | nil => exact h
  | cons op rest ih => exact ih (h.exec op)

theorem saveAll (h : l.Twin l') : l.saveAll.Twin l'.saveAll :=
  ⟨h.sound.follows h.sound.refl.saveAll, h.sound'.follows h.sound'.refl.saveAll,
    view_saveAll h.sound.users.toCoherent h.sound'.users.toCoherent h.users,
    view_saveAll h.sound.kapps.toCoherent h.sound'.kapps.toCoherent h.kapps,
    view_saveAll h.sound.peers.toCoherent h.sound'.peers.toCoherent h.peers, h.gasUsed⟩

end Ledger.Twin

section
variable (env : Env K PublicKey Cost)

/-- The contracts of a transaction in lockstep, by induction on them. -/
theorem runContracts_lockstep (contracts : List (Contract X K P)) :
    Lockstep Twin (runContracts contracts) (fun _ => Twin) Twin := by
  induction contracts with
  | nil => exact .pure fun _ _ h => h
  | cons contract rest ih =>
    intro l l' h
    unfold runContracts
    rw [h.view_eq]
    rcases contract l'.view with ⟨ops, err⟩
    cases err with
    | none => exact ih _ _ (h.execAll ops)
    | some e => exact ⟨rfl, h.execAll ops⟩

variable (tx : Tx X K P)

theorem processContracts_lockstep : Lockstep Twin (processContracts tx) (fun _ => Twin) Twin :=
  .bind (runContracts_lockstep _) fun _ => .modify fun _ _ h => h.saveAll

theorem getExistingUser_twin (addr : Bytes) :
    Lockstep Twin (getExistingUser addr : Proc X K P (Handler (UserData X)))
      (fun _ => Twin) Twin := by
  intro l l' h
  have hshown : shown (l.users.getExisting addr) = shown (l'.users.getExisting addr) :=
    shown_handle h.users addr _
  unfold getExistingUser Process.attempt
  dsimp only
  cases hget : l.users.getExisting addr with
  | error e =>
    cases hget' : l'.users.getExisting addr with
    | error e' =>
      rw [hget, hget'] at hshown
      exact ⟨Except.error.inj hshown, h⟩
    | ok r' => rw [hget, hget'] at hshown; cases hshown
  | ok r =>
    cases hget' : l'.users.getExisting addr with
    | error e' => rw [hget, hget'] at hshown; cases hshown
    | ok r' =>
      rw [hget, hget'] at hshown
      obtain ⟨hhandler, hview⟩ := Prod.mk_inj.1 (Except.ok.inj hshown)
      have hgives := h.sound.users.gives (getExisting_gives hget)
      have hgives' := h.sound'.users.gives (getExisting_gives hget')
      exact ⟨hhandler, h.sound.setUsers hgives.1, h.sound'.setUsers hgives'.1, hview, h.kapps,
        h.peers, h.gasUsed⟩

theorem processKAppFee_lockstep (owner : Handler (UserData X)) :
    Lockstep Twin (processKAppFee env tx owner) (fun _ => Twin) Twin := by
  refine .lift_bind (fun owner1 _ => ?_) fun _ _ h => h
  refine .bind (Q := fun _ => Twin) (.modify fun l l' h => ?_) fun _ => ?_
  · exact h.exec (.user (.write tx.sender owner1.fields owner1.dirtyData))
  · refine .bind (Q := fun _ => Twin) (.modify fun l l' h => ?_) fun _ =>
      .pure fun _ _ h => h
    exact ⟨⟨h.sound.users, h.sound.kapps, h.sound.peers⟩,
      ⟨h.sound'.users, h.sound'.kapps, h.sound'.peers⟩, h.users, h.kapps, h.peers, h.gasUsed⟩

/-- Ledgers that are alike with empty caches. -/
def AtBoundary (l l' : Ledger X K P) : Prop := l.Alike l' ∧ l.CachesEmpty ∧ l'.CachesEmpty

theorem revertKAppFee_gasUsed (l : Ledger X K P) (txHash : Bytes) (kAppFee : Int64) :
    (l.revertKAppFee txHash kAppFee).gasUsed = l.gasUsed := by
  unfold revertKAppFee
  split <;> rfl

theorem executeTransaction_lockstep :
    Lockstep Twin (executeTransaction env tx) (fun _ => AtBoundary)
      (fun l l' => l.gasUsed = l'.gasUsed) := by
  intro l l' h
  unfold executeTransaction
  rcases (getExistingUser_twin tx.sender l l' h).cases with
    ⟨owner, l1, l1', hr, hr', h1⟩ | ⟨e, l1, l1', hr, hr', h1⟩ <;> rw [hr, hr']
  swap
  · exact ⟨rfl, h1.gasUsed⟩
  dsimp only
  rcases (processKAppFee_lockstep env tx owner l1 l1' h1).cases with
    ⟨kAppFee, l2, l2', hr, hr', h2⟩ | ⟨e, l2, l2', hr, hr', h2⟩ <;> rw [hr, hr']
  swap
  · exact ⟨rfl, h2.gasUsed⟩
  dsimp only
  rcases (processContracts_lockstep tx l2 l2' h2).cases with
    ⟨u, l3, l3', hr, hr', h3⟩ | ⟨e, l3, l3', hr, hr', h3⟩ <;> rw [hr, hr']
  · exact ⟨rfl, h3.alike, ⟨rfl, rfl, rfl⟩, ⟨rfl, rfl, rfl⟩⟩
  · refine ⟨rfl, ?_⟩
    dsimp only
    rw [revertKAppFee_gasUsed, revertKAppFee_gasUsed]
    exact h3.gasUsed

theorem processTransaction_lockstep :
    Lockstep Alike (processTransaction env tx) (fun _ => AtBoundary)
      (fun l l' => l.gasUsed = l'.gasUsed) := by
  refine .bind (Q := fun _ => Twin) (.modify fun _ _ h => .of_alike h) fun _ => ?_
  exact .lift_bind (fun _ _ => executeTransaction_lockstep env tx) fun _ _ h => h.gasUsed

/-- A failed transaction leaves ledgers that are alike: each goes back to where it was. -/
theorem processOrRevert_lockstep :
    Lockstep AtBoundary (processOrRevert env tx) (fun _ => AtBoundary) AtBoundary := by
  rintro l l' ⟨h, hempty, hempty'⟩
  unfold processOrRevert
  rcases (processTransaction_lockstep env tx l l' h).cases with
    ⟨u, l1, l1', hr, hr', h1⟩ | ⟨e, l1, l1', hr, hr', hgas⟩
  · rw [hr, hr']
    exact ⟨rfl, h1⟩
  rw [hr, hr']
  obtain ⟨hsame, -⟩ := revertTo_same h.sound hempty hr
  obtain ⟨hsame', -⟩ := revertTo_same h.sound' hempty' hr'
  have hcaches : (l1.revertTo l).CachesEmpty := ⟨hsame.users.cache.trans hempty.users,
    hsame.kapps.cache.trans hempty.kapps, hsame.peers.cache.trans hempty.peers⟩
  have hcaches' : (l1'.revertTo l').CachesEmpty := ⟨hsame'.users.cache.trans hempty'.users,
    hsame'.kapps.cache.trans hempty'.kapps, hsame'.peers.cache.trans hempty'.peers⟩
  have hside : ∀ {F : Type} {c c0 c' c0' : CachedDB F}, SameSide c c0 → SameSide c' c0' →
      AlikeSide c0 c0' → c.cache = [] → c'.cache = [] → AlikeSide c c' :=
    fun hs hs' ha hc hc' => .of_nil hc hc' (hs.same.1.trans (ha.accounts.trans hs'.same.1.symm))
  refine ⟨rfl, ⟨hsame.sound hempty h.sound, hsame'.sound hempty' h.sound', ?_, ?_, ?_, hgas⟩,
    hcaches, hcaches'⟩
  · exact hside hsame.users hsame'.users h.users hcaches.users hcaches'.users
  · exact hside hsame.kapps hsame'.kapps h.kapps hcaches.kapps hcaches'.kapps
  · exact hside hsame.peers hsame'.peers h.peers hcaches.peers hcaches'.peers

theorem processAndRemoveBadTransaction_lockstep :
    Lockstep Alike (processAndRemoveBadTransaction env tx) (fun _ => Alike) Alike :=
  .bind (enterBlock_lockstep env tx) fun _ =>
    (processOrRevert_lockstep env tx).imp (fun _ _ _ h => h.1) fun _ _ h => h.1

/-- The transactions of a block, one after the other; a failure does not stop the others. -/
def processTransactions (l : Ledger X K P) (txs : List (Tx X K P)) : Ledger X K P :=
  txs.foldl (fun l tx => (processAndRemoveBadTransaction env tx l).2) l

/-- Further transactions keep ledgers alike, by induction on them. -/
theorem processTransactions_alike {l l' : Ledger X K P} (h : l.Alike l') (txs : List (Tx X K P)) :
    (processTransactions env l txs).Alike (processTransactions env l' txs) := by
  induction txs generalizing l l' with
  | nil => exact h
  | cons tx rest ih =>
    refine ih ?_
    dsimp only
    rcases (processAndRemoveBadTransaction_lockstep env tx l l' h).cases with
      ⟨u, l1, l1', hr, hr', h1⟩ | ⟨e, l1, l1', hr, hr', h1⟩ <;> rw [hr, hr'] <;> exact h1

end

end KleverGo.Processing
