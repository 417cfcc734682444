import KleverGo.Transactions.Processing

/-!
# Rollback of a failed transaction

Every call of the processing takes the ledger to a later state: the caches stay coherent and what is
written is journaled (`Ledger.Follows`).  `ProcessTransaction` that fails leaves empty caches and the
fee handler it found; the rollback of `processAndRemoveBadTransaction` then undoes what it journaled.

* `processTransaction_processed`: the states that `ProcessTransaction` can leave.
* `failed_leaves_bandwidth_fee`: **a failed transaction leaves the stores, the caches and the fees
  as they were right after `ProcessBandwidthFee`.**
-/

namespace KleverGo.Processing

open Transactions Process

variable {X K P PublicKey Cost : Type}

/-- The three sides between two calls. -/
structure Ledger.Sound (l : Ledger X K P) : Prop where
  users : Transactions.Sound l.users
  kapps : Transactions.Sound l.kapps
  peers : Transactions.Sound l.peers

/-- A later state of the three sides. -/
structure Ledger.Follows (l l' : Ledger X K P) : Prop where
  users : Transactions.Follows l.users l'.users
  kapps : Transactions.Follows l.kapps l'.kapps
  peers : Transactions.Follows l.peers l'.peers

namespace Ledger

variable {l l₀ l₁ l₂ : Ledger X K P}

theorem Sound.refl (h : l.Sound) : l.Follows l :=
  ⟨h.users.refl, h.kapps.refl, h.peers.refl⟩

theorem Sound.follows (h : l.Sound) (hf : l.Follows l₁) : l₁.Sound :=
  ⟨h.users.follows hf.users, h.kapps.follows hf.kapps, h.peers.follows hf.peers⟩

theorem Follows.trans (h1 : l.Follows l₁) (h2 : l₁.Follows l₂) : l.Follows l₂ :=
  ⟨h1.users.trans h2.users, h1.kapps.trans h2.kapps, h1.peers.trans h2.peers⟩

section
variable (h : l₀.Follows l)
include h

theorem Follows.saveAll : l₀.Follows l.saveAll :=
  ⟨h.users.trans h.users.coherent.saveAll.1, h.kapps.trans h.kapps.coherent.saveAll.1,
    h.peers.trans h.peers.coherent.saveAll.1⟩

theorem Follows.resetAll : l₀.Follows l.resetAll :=
  ⟨h.users.trans h.users.coherent.reset, h.kapps.trans h.kapps.coherent.reset,
    h.peers.trans h.peers.coherent.reset⟩

theorem Follows.touchUser (addr : Bytes) (u : Handler (UserData X)) :
    l₀.Follows (l.touchUser addr u) :=
  ⟨h.users.trans (h.users.coherent.write ..), h.kapps, h.peers⟩

theorem Follows.touchKApp (addr : Bytes) (k : Handler K) : l₀.Follows (l.touchKApp addr k) :=
  ⟨h.users, h.kapps.trans (h.kapps.coherent.write ..), h.peers⟩

theorem Follows.exec (op : LedgerOp X K P) : l₀.Follows (l.exec op) := by
  cases op with
  | user op => exact ⟨h.users.trans (h.users.coherent.exec op), h.kapps, h.peers⟩
  | kapp op => exact ⟨h.users, h.kapps.trans (h.kapps.coherent.exec op), h.peers⟩
  | peer op => exact ⟨h.users, h.kapps, h.peers.trans (h.peers.coherent.exec op)⟩

/-- Any operations of the KApps, by induction on them. -/
theorem Follows.execAll (ops : List (LedgerOp X K P)) : l₀.Follows (ops.foldl Ledger.exec l) := by
  induction ops generalizing l with
  | nil => exact h
  | cons op rest ih => exact ih (h.exec op)

end

end Ledger

/-! ## Calls -/

/-- A later ledger with the same fees, and a fresh handler of a user. -/
structure Holds (l₀ : Ledger X K P) (addr : Bytes) (h : Handler (UserData X))
    (l : Ledger X K P) : Prop where
  follows : l₀.Follows l
  fresh : Fresh l.users.db addr h
  fees : l.fees = l₀.fees

section
variable {l₀ : Ledger X K P} {addr : Bytes} {h : Handler (UserData X)}

theorem getExistingUser_holds (hl0 : l₀.Sound) (addr : Bytes) :
    Triple (· = l₀) (getExistingUser addr)
      (fun h l => Holds l₀ addr h l ∧ ∃ users, l₀.users.getExisting addr = .ok (h, users))
      (· = l₀) := by
  refine .attempt (fun l h l' hl hg => ?_) fun l hl => hl
  subst hl
  obtain ⟨r, hr, hrfl⟩ := map_eq_ok.1 hg
  obtain ⟨rfl, rfl⟩ := Prod.mk.inj hrfl
  obtain ⟨hfollows, hfresh⟩ := hl0.users.gives (getExisting_gives hr)
  exact ⟨⟨⟨hfollows, hl0.kapps.refl, hl0.peers.refl⟩, hfresh, rfl⟩, r.2, hr⟩

theorem kapp_holds {a : Bytes} {read : CachedDB K → Except Err (Handler K × CachedDB K)}
    (hread : ∀ {c k c'}, read c = .ok (k, c') → Gives c a k c') :
    Triple (Holds l₀ addr h)
      (.attempt fun l => (read l.kapps).map fun r => (r.1, { l with kapps := r.2 }))
      (fun _ => Holds l₀ addr h) l₀.Follows := by
  refine .attempt (fun l k l' hl hg => ?_) fun _ hl => hl.follows
  obtain ⟨r, hr, hrfl⟩ := map_eq_ok.1 hg
  obtain ⟨rfl, rfl⟩ := Prod.mk.inj hrfl
  exact ⟨⟨hl.follows.users, hl.follows.kapps.trans (hl.follows.kapps.coherent.gives (hread hr)).1,
    hl.follows.peers⟩, hl.fresh, hl.fees⟩

theorem touchUser_holds {h' : Handler (UserData X)} (hroot : h'.rootHash = h.rootHash) :
    Triple (Holds l₀ addr h) (.modify (·.touchUser addr h') : Proc X K P Unit)
      (fun _ => Holds l₀ addr h') l₀.Follows :=
  .modify fun _ hl => ⟨hl.follows.touchUser _ _, hroot.trans hl.fresh, hl.fees⟩

theorem saveUser_holds :
    Triple (Holds l₀ addr h) (saveUser addr h)
      (fun h' l => Holds l₀ addr h' l ∧ h'.fields = h.fields ∧
        l.users.cache.lookup addr = none ∧
        l.users.db.tries.mainTrie addr = some (savedOf h)) l₀.Follows := by
  intro l hl
  obtain ⟨hfresh, hfields⟩ := saveAccount_handler l.users.db addr h
  have hcoherent := hl.follows.users.coherent
  refine ⟨⟨⟨hl.follows.users.trans (hcoherent.saveUser hl.fresh), hl.follows.kapps,
    hl.follows.peers⟩, hfresh, hl.fees⟩, hfields, ?_, ?_⟩
  · rw [List.lookup_eq_none_iff]
    intro e he
    have hne : e.1 ≠ addr := of_decide_eq_true (List.mem_filter.1 he).2
    exact bne_iff_ne.2 hne.symm
  · change (l.users.db.saveAccount addr h).1.tries.mainTrie addr = _
    rw [(saveAccount_spec hcoherent.synced hl.fresh).1, Function.update_self]

end

/-- The KLV balance after the swap of a transaction's KDA fee. -/
def swappedBalance (tx : Transaction) (balance : Int64) : Int64 :=
  match tx.kdaFee with
  | none => balance
  | some fee =>
    (if isKLV fee.kda then balance - fee.amount else balance) + (tx.bandwidthFee + tx.kAppFee)

/-- The account of a sender after `ProcessBandwidthFee`. -/
def paidFields (tx : Transaction) (u : UserData X) : UserData X :=
  { u with balance := swappedBalance tx u.balance - tx.bandwidthFee, nonce := u.nonce + 1 }

theorem subFromBalance_spec {mr : Marshalizer} {h h' : Handler (UserData X)} {value : Int64}
    {assetID : Bytes} (hs : subFromBalance mr h value assetID = .ok h') :
    h'.rootHash = h.rootHash ∧ h'.fields =
      { h.fields with
        balance := if isKLV assetID then h.fields.balance - value else h.fields.balance } := by
  unfold subFromBalance at hs
  by_cases hklv : isKLV assetID = true
  · simp only [hklv, if_true, bind_eq_ok, pure_eq_ok] at hs
    obtain ⟨-, -, -, -, rfl⟩ := hs
    simp [setBalance, hklv]
  · rw [Bool.not_eq_true] at hklv
    simp only [hklv, Bool.false_eq_true, if_false, bind_eq_ok, pure_eq_ok] at hs
    obtain ⟨-, -, _, -, -, -, rfl⟩ := hs
    simp [setUserKDA, saveKeyValue, hklv]

theorem addToBalance_spec {h h' : Handler (UserData X)} {value : Int64}
    (hs : addToBalance h value = .ok h') :
    h'.rootHash = h.rootHash ∧
      h'.fields = { h.fields with balance := h.fields.balance + value } := by
  simp only [addToBalance, bind_eq_ok, pure_eq_ok] at hs
  obtain ⟨-, -, -, -, rfl⟩ := hs
  exact ⟨rfl, rfl⟩

theorem consumeFee_spec {env : Env K PublicKey Cost} {fee : Int64} {h h' : Handler (UserData X)}
    (hs : consumeFee env fee h = .ok h') :
    h'.rootHash = h.rootHash ∧
      h'.fields = { h.fields with balance := h.fields.balance - fee } := by
  unfold consumeFee at hs
  split at hs
  · rename_i hzero
    cases hs
    simp [hzero]
  · simp only [bind_eq_ok] at hs
    obtain ⟨-, -, hs⟩ := hs
    simpa [isKLV] using subFromBalance_spec hs

section
variable (env : Env K PublicKey Cost) {l₀ : Ledger X K P} {addr : Bytes}

theorem swap_holds (sender : Handler (UserData X)) (klvAmount : Int64) (info : KDAFee) :
    Triple (Holds l₀ addr sender) (swap env addr sender klvAmount info)
      (fun h' l => Holds l₀ addr h' l ∧ h'.fields =
        { sender.fields with
          balance := (if isKLV info.kda then sender.fields.balance - info.amount
            else sender.fields.balance) + klvAmount }) l₀.Follows := by
  refine .bind (kapp_holds load_gives) fun app => ?_
  refine .lift_bind (fun pool _ => ?_) fun _ hl => hl.follows
  refine .bind (kapp_holds getExisting_gives) fun kdaKapp => ?_
  refine .lift_bind (fun _ _ => ?_) fun _ hl => hl.follows
  refine .lift_bind (fun sender1 hsub => ?_) fun _ hl => hl.follows
  obtain ⟨hroot1, hfields1⟩ := subFromBalance_spec hsub
  refine .bind (touchUser_holds hroot1) fun _ => ?_
  refine .lift_bind (fun _ _ => ?_) fun _ hl => hl.follows
  refine .lift_bind (fun sender2 hadd => ?_) fun _ hl => hl.follows
  obtain ⟨hroot2, hfields2⟩ := addToBalance_spec hadd
  refine .bind (touchUser_holds hroot2) fun _ => ?_
  refine .bind saveUser_holds fun sender3 => ?_
  refine .bind (Q := fun _ l => Holds l₀ addr sender3 l ∧ sender3.fields = sender2.fields)
    (.modify fun l hl =>
      ⟨⟨hl.1.follows.touchKApp _ _, hl.1.fresh, hl.1.fees⟩, hl.2.1⟩) fun _ => ?_
  refine .pure fun l hl => ⟨hl.1, ?_⟩
  rw [hl.2, hfields2, hfields1]

theorem swapFees_holds (tx : Transaction) (owner : Handler (UserData X)) :
    Triple (Holds l₀ tx.sender owner) (swapFees env tx owner)
      (fun h' l => Holds l₀ tx.sender h' l ∧ h'.fields =
        { owner.fields with balance := swappedBalance tx owner.fields.balance }) l₀.Follows := by
  unfold swapFees swappedBalance
  cases tx.kdaFee with
  | none => exact .pure fun l hl => ⟨hl, rfl⟩
  | some fee => exact swap_holds env owner _ fee

/-- The cacher at the boundary of a transaction. -/
structure Ledger.CachesEmpty (l : Ledger X K P) : Prop where
  users : l.users.cache = []
  kapps : l.kapps.cache = []
  peers : l.peers.cache = []

/-- What `ProcessBandwidthFee` leaves: the sender has paid, and the caches are empty. -/
structure Paid (l₀ : Ledger X K P) (tx : Tx X K P) (owner : Handler (UserData X))
    (l : Ledger X K P) : Prop where
  follows : l₀.Follows l
  account : ∃ account, l.users.db.tries.mainTrie tx.sender = some account ∧
    account.fields = paidFields tx.toTransaction owner.fields
  caches : l.CachesEmpty
  fees : l.fees = l₀.fees.processTransactionFee tx.bandwidthFee 0 tx.hash

theorem processBandwidthFee_paid (tx : Tx X K P) (owner : Handler (UserData X)) :
    Triple (Holds l₀ tx.sender owner) (processBandwidthFee env tx owner)
      (fun _ => Paid l₀ tx owner) l₀.Follows := by
  refine .bind (swapFees_holds env _ owner) fun owner1 => .of_and fun hswapped => ?_
  refine .lift_bind (fun owner2 hconsume => ?_) fun _ hl => hl.follows
  obtain ⟨hroot, hfields⟩ := consumeFee_spec hconsume
  have hincreased : ∀ l, Holds l₀ tx.sender owner1 l → Holds l₀ tx.sender (increaseNonce owner2) l :=
    fun l hl => ⟨hl.follows, hroot.trans hl.fresh, hl.fees⟩
  refine .bind (fun l hl => saveUser_holds l (hincreased l hl)) fun _ => ?_
  refine .bind (.modify fun l hl => ?_) fun _ => .modify fun l hl => hl
  obtain ⟨hholds, -, hlookup, hstored⟩ := hl
  have hfollows := hholds.follows.saveAll
  refine ⟨⟨hfollows.users, hfollows.kapps, hfollows.peers⟩,
    ⟨savedOf (increaseNonce owner2), ?_, ?_⟩, ⟨rfl, rfl, rfl⟩, ?_⟩
  · exact (hholds.follows.users.coherent.saveAll.2 tx.sender).trans (by rw [hlookup]; exact hstored)
  · simp only [savedOf, increaseNonce, hfields, hswapped, paidFields]
  · exact congrArg (FeeHandler.processTransactionFee · tx.bandwidthFee 0 tx.hash) hholds.fees

theorem checkPaymentFeeBalance_holds (tx : Transaction) (owner h : Handler (UserData X)) :
    Triple (Holds l₀ addr h) (checkPaymentFeeBalance env tx owner : Proc X K P Unit)
      (fun _ => Holds l₀ addr h) l₀.Follows := by
  refine .lift_bind (fun _ _ => ?_) fun _ hl => hl.follows
  refine .bind (Q := fun _ => Holds l₀ addr h) ?_
    fun r => .lift (fun _ _ _ hl => hl) fun _ hl => hl.follows
  unfold computeKDAFees getFeesPoolKApp
  cases tx.kdaFee with
  | none => exact .pure fun _ hl => hl
  | some fee =>
    dsimp only
    split
    · refine .bind (kapp_holds load_gives) fun app => ?_
      exact .lift_bind (fun _ _ => .pure fun _ hl => hl) fun _ hl => hl.follows
    · exact .pure fun _ hl => hl

/-- What a transaction that is admitted leaves, and what one that is rejected. -/
theorem enterBlock_paid (hl0 : l₀.Sound) (tx : Tx X K P) :
    Triple (· = l₀) (enterBlock env tx)
      (fun _ l => ∃ owner users, l₀.users.getExisting tx.sender = .ok (owner, users) ∧
        Paid l₀ tx owner l) l₀.Follows := by
  refine .bind (Q := fun r l => Holds l₀ tx.sender r.1 l ∧
    ∃ users, l₀.users.getExisting tx.sender = .ok (r.1, users)) ?_ fun r => ?_
  · have hgiven : Triple (· = l₀) (getExistingUser tx.sender) _ l₀.Follows :=
      (getExistingUser_holds hl0 tx.sender).imp_error fun l hl => hl ▸ hl0.refl
    refine .bind hgiven fun owner => .of_and fun hget => ?_
    refine .lift_bind (fun cost _ => ?_) fun _ hl => hl.follows
    refine .bind (checkPaymentFeeBalance_holds env _ owner owner) fun _ => ?_
    exact .lift_bind (fun gasLimit _ => .pure fun _ hl => ⟨hl, hget⟩) fun _ hl => hl.follows
  · obtain ⟨owner, gasLimit⟩ := r
    refine .of_and fun ⟨users, hget⟩ => ?_
    refine .bind (Q := fun _ => Holds l₀ tx.sender owner) (.attempt ?_ fun _ hl => hl.follows)
      fun _ => ?_
    · intro l u l' hl hg
      obtain ⟨_, -, hrfl⟩ := map_eq_ok.1 hg
      obtain ⟨-, rfl⟩ := Prod.mk.inj hrfl
      exact hl
    · refine .bind (processBandwidthFee_paid env tx owner) fun _ => .modify fun l hl => ?_
      exact ⟨owner, users, hget, ⟨hl.follows.users, hl.follows.kapps, hl.follows.peers⟩, hl.account,
        ⟨hl.caches.users, hl.caches.kapps, hl.caches.peers⟩, hl.fees⟩

end

/-! ## Fees -/

/-- The same totals, and the same fees booked for every transaction. -/
structure FeeHandler.Same (f g : FeeHandler) : Prop where
  txFees : f.accumulatedTxFees = g.accumulatedTxFees
  kAppFees : f.accumulatedKAppFees = g.accumulatedKAppFees
  booked : ∀ txHash, f.booked txHash = g.booked txHash

namespace FeeHandler

variable {f : FeeHandler} {txHash : Bytes}

theorem booked_insert (m : FMap Bytes Fees) (a b : Int64) (fee : Fees) (txHash' : Bytes) :
    (FeeHandler.mk (m.insert txHash fee) a b).booked txHash' =
      if txHash' = txHash then fee else (m.lookup txHash').getD ⟨0, 0⟩ := by
  unfold booked
  rw [FMap.lookup_insert_eq]
  split <;> rfl

theorem revert_processTransactionFee {kAppFee : Int64} (hk : 0 < kAppFee)
    (htx : 0 ≤ (f.booked txHash).txFee) (hkapp : (f.booked txHash).kAppFee = 0) :
    ((f.processTransactionFee 0 kAppFee txHash).revertTransactionFee txHash 0 kAppFee).Same f := by
  have hnonneg : ¬ ((0 : Int64) < 0 ∨ kAppFee < 0) := by
    rw [Int64.lt_iff_toInt_lt] at hk
    simp only [Int64.lt_iff_toInt_lt]
    omega
  have hlookup : (f.mapHashFee.insert txHash ⟨(f.booked txHash).txFee + 0, 0 + kAppFee⟩).lookup
      txHash = some ⟨(f.booked txHash).txFee, kAppFee⟩ := by
    rw [FMap.lookup_insert_eq, if_pos rfl, Int64.add_zero, Int64.zero_add]
  unfold processTransactionFee revertTransactionFee
  rw [if_neg hnonneg]
  dsimp only
  rw [hkapp, hlookup]
  dsimp only
  rw [if_neg (Int64.not_lt.2 htx), ite_self]
  refine ⟨by simp, by simp, fun txHash' => ?_⟩
  rw [booked_insert, FMap.lookup_insert_eq]
  split
  · rename_i heq
    rw [heq, Int64.sub_zero, Int64.sub_self, ← hkapp]
  · rfl

theorem processTransactionFee_zero {kAppFee : Int64} (hk : ¬ 0 < kAppFee) :
    (f.processTransactionFee 0 kAppFee txHash).Same f := by
  unfold processTransactionFee
  split
  · exact ⟨rfl, rfl, fun _ => rfl⟩
  rename_i hneg
  have hzero : kAppFee = 0 := by
    rw [← Int64.toInt_inj]
    simp only [Int64.lt_iff_toInt_lt, not_or] at hneg hk
    simp only [Int64.toInt_zero] at *
    omega
  subst hzero
  refine ⟨by simp, by simp, fun txHash' => ?_⟩
  rw [booked_insert]
  split
  · rename_i heq
    simp [heq]
  · rfl

end FeeHandler

/-! ## Failed transactions -/

section
variable (env : Env K PublicKey Cost) {l l₀ : Ledger X K P}

/-- A later ledger with the same fees. -/
def Ledger.Runs (l l' : Ledger X K P) : Prop := l.Follows l' ∧ l'.fees = l.fees

theorem processKAppFee_runs (tx : Tx X K P) (owner : Handler (UserData X)) :
    Triple (Holds l₀ tx.sender owner) (processKAppFee env tx owner)
      (fun kAppFee l => l₀.Follows l ∧ kAppFee = tx.kAppFee ∧
        l.fees = l₀.fees.processTransactionFee 0 tx.kAppFee tx.hash) l₀.Runs := by
  refine .lift_bind (fun owner1 hconsume => ?_) fun _ hl => ⟨hl.follows, hl.fees⟩
  obtain ⟨hroot, -⟩ := consumeFee_spec hconsume
  intro l hl
  have hfollows := hl.follows.touchUser tx.sender owner1
  refine ⟨⟨hfollows.users, hfollows.kapps, hfollows.peers⟩, rfl, ?_⟩
  exact congrArg (FeeHandler.processTransactionFee · 0 tx.kAppFee tx.hash) hl.fees

theorem execAll_fees (ops : List (LedgerOp X K P)) (l : Ledger X K P) :
    (ops.foldl Ledger.exec l).fees = l.fees := by
  induction ops generalizing l with
  | nil => rfl
  | cons op rest ih =>
    rw [List.foldl_cons, ih]
    cases op <;> rfl

/-- The contracts of a transaction, by induction on them. -/
theorem runContracts_runs (contracts : List (Contract X K P)) :
    Triple l₀.Runs (runContracts contracts) (fun _ => l₀.Runs) l₀.Runs := by
  induction contracts with
  | nil => exact .pure fun _ hl => hl
  | cons contract rest ih =>
    intro l hl
    unfold runContracts
    have hops : ∀ ops : List (LedgerOp X K P), l₀.Runs (ops.foldl Ledger.exec l) := fun ops =>
      ⟨hl.1.execAll ops, (execAll_fees ops l).trans hl.2⟩
    rcases contract l.view with ⟨ops, err⟩
    cases err with
    | none => exact ih _ (hops ops)
    | some e => exact hops ops

theorem processContracts_runs (tx : Tx X K P) :
    Triple l₀.Runs (processContracts tx) (fun _ => l₀.Runs) l₀.Runs :=
  .bind (runContracts_runs _) fun _ => .modify fun _ hl => ⟨hl.1.saveAll, hl.2⟩

/-- What `ProcessTransaction` leaves: empty caches and, under a condition, the fees it found. -/
structure Processed (l₀ : Ledger X K P) (reverted : Prop) (l : Ledger X K P) : Prop where
  follows : l₀.Follows l
  users : l.users.cache = []
  kapps : l.kapps.cache = []
  peers : l.peers.cache = []
  fees : reverted → l.fees.Same l₀.fees

theorem Processed.of_resetAll {reverted : Prop} (hl : l₀.Follows l)
    (hfees : reverted → l.fees.Same l₀.fees) : Processed l₀ reverted l.resetAll :=
  ⟨hl.resetAll, rfl, rfl, rfl, hfees⟩

/-- Nothing but a bandwidth fee is booked for a transaction. -/
def FeeHandler.OnlyTxFee (f : FeeHandler) (txHash : Bytes) : Prop :=
  0 ≤ (f.booked txHash).txFee ∧ (f.booked txHash).kAppFee = 0

theorem Processed.revertKAppFee (hl : l₀.Follows l) {txHash : Bytes} {kAppFee : Int64}
    (hfees : l.fees = l₀.fees.processTransactionFee 0 kAppFee txHash) :
    Processed l₀ (l₀.fees.OnlyTxFee txHash) (l.resetAll.revertKAppFee txHash kAppFee) := by
  unfold Ledger.revertKAppFee
  have hreset := hl.resetAll
  split
  · rename_i hk
    refine ⟨⟨hreset.users, hreset.kapps, hreset.peers⟩, rfl, rfl, rfl, fun hbooked => ?_⟩
    change (l.fees.revertTransactionFee txHash 0 kAppFee).Same _
    rw [hfees]
    exact FeeHandler.revert_processTransactionFee hk hbooked.1 hbooked.2
  · rename_i hk
    refine .of_resetAll hl fun _ => ?_
    rw [hfees]
    exact FeeHandler.processTransactionFee_zero hk

/-- **`ProcessTransaction`**: the fees are those it found if it fails and no KApp fee was booked. -/
theorem processTransaction_processed (hl0 : l₀.Sound) (tx : Tx X K P) :
    Triple (· = l₀) (processTransaction env tx) (fun _ => Processed l₀ False)
      (Processed l₀ (l₀.fees.OnlyTxFee tx.hash)) := by
  have hreset := hl0.refl.resetAll
  have hsound := hl0.follows hreset
  have hstart : Processed l₀ (l₀.fees.OnlyTxFee tx.hash) l₀.resetAll :=
    .of_resetAll hl0.refl fun _ => ⟨rfl, rfl, fun _ => rfl⟩
  refine .bind (Q := fun _ l => l = l₀.resetAll) (.modify fun l hl => by rw [hl]) fun _ => ?_
  refine .lift_bind (fun _ _ => ?_) fun l hl => hl ▸ hstart
  rintro l rfl
  have hget := getExistingUser_holds hsound tx.sender l₀.resetAll rfl
  unfold executeTransaction
  rcases hr : getExistingUser tx.sender l₀.resetAll with ⟨r, l₁⟩
  rw [hr] at hget
  cases r with
  | error e => exact hget ▸ hstart
  | ok owner =>
    dsimp only
    have hfee := processKAppFee_runs env tx owner l₁ hget.1
    rcases hr1 : processKAppFee env tx owner l₁ with ⟨r1, l₂⟩
    rw [hr1] at hfee
    cases r1 with
    | error e =>
      refine Processed.of_resetAll (hreset.trans hfee.1) fun _ => ?_
      rw [hfee.2]
      exact ⟨rfl, rfl, fun _ => rfl⟩
    | ok kAppFee =>
      dsimp only
      obtain ⟨hfollows, rfl, hfees⟩ := hfee
      have hsound2 := hsound.follows hfollows
      have hcontracts := processContracts_runs tx l₂ ⟨hsound2.refl, rfl⟩
      rcases hr2 : processContracts tx l₂ with ⟨r2, l3⟩
      rw [hr2] at hcontracts
      cases r2 with
      | error e =>
        exact Processed.revertKAppFee (hreset.trans (hfollows.trans hcontracts.1))
          (hcontracts.2.trans hfees)
      | ok u => exact Processed.of_resetAll (hreset.trans (hfollows.trans hcontracts.1)) False.elim

end

/-- A side with the accounts, the journal and the cache of another one. -/
structure SameSide {F : Type} (c c₀ : CachedDB F) : Prop where
  same : Same c.db.tries c₀.db.tries
  entries : c.db.entries = c₀.db.entries
  committed : c.db.committed = c₀.db.committed
  cache : c.cache = c₀.cache

/-- The rollback of a side undoes everything since the snapshot. -/
theorem revertSide_same {F : Type} {c c' : CachedDB F} (hc : Transactions.Sound c)
    (h : Transactions.Follows c c') (hcache : c'.cache = c.cache) :
    SameSide (revertSide c' c.db.entries.length) c := by
  obtain ⟨back, hback, hsame, hentries, hcommitted⟩ := revertToSnapshot_spec hc.committed h.advances
  unfold revertSide
  rw [hback]
  exact ⟨hsame, hentries, hcommitted, hcache⟩

theorem SameSide.sound {F : Type} {c c₀ : CachedDB F} (h : SameSide c c₀) (hc : c₀.cache = [])
    (hs : Transactions.Sound c₀) : Transactions.Sound c := by
  have hcoherent : Coherent c := by
    have hcache : c.cache = [] := h.cache.trans hc
    obtain ⟨db, cache⟩ := c
    subst hcache
    exact .of_nil h.same.2
  refine ⟨hcoherent, fun hnil => ?_⟩
  rw [h.same.1, h.committed]
  exact hs.committed (h.entries ▸ hnil)

/-- A ledger with the stores and the caches of another one. -/
structure Ledger.SameStores (l l₀ : Ledger X K P) : Prop where
  users : SameSide l.users l₀.users
  kapps : SameSide l.kapps l₀.kapps
  peers : SameSide l.peers l₀.peers

theorem Ledger.SameStores.sound {l l₀ : Ledger X K P} (h : l.SameStores l₀) (hc : l₀.CachesEmpty)
    (hs : l₀.Sound) : l.Sound :=
  ⟨h.users.sound hc.users hs.users, h.kapps.sound hc.kapps hs.kapps,
    h.peers.sound hc.peers hs.peers⟩

section
variable {env : Env K PublicKey Cost} {l l₁ l₂ : Ledger X K P} {tx : Tx X K P} {e : Err}

/-- Nothing but the bandwidth fee is booked for a transaction that was just admitted. -/
theorem Paid.booked {owner : Handler (UserData X)} (h : Paid l tx owner l₁)
    (hhash : l.fees.booked tx.hash = ⟨0, 0⟩) :
    l₁.fees.OnlyTxFee tx.hash := by
  rw [h.fees, FeeHandler.OnlyTxFee, FeeHandler.processTransactionFee]
  split
  · rw [hhash]
    exact ⟨Int64.le_refl 0, rfl⟩
  · rename_i hneg
    rw [not_or, Int64.not_lt] at hneg
    rw [FeeHandler.booked_insert, if_pos rfl, hhash]
    exact ⟨by simpa using hneg.1, by simp⟩

theorem revertTo_same (hl1 : l₁.Sound) (hcaches : l₁.CachesEmpty)
    (hfail : processTransaction env tx l₁ = (.error e, l₂)) :
    (l₂.revertTo l₁).SameStores l₁ ∧ (l₁.fees.OnlyTxFee tx.hash → l₂.fees.Same l₁.fees) := by
  have h := processTransaction_processed env hl1 tx l₁ rfl
  rw [hfail] at h
  obtain ⟨hfollows, husers, hkapps, hpeers, hfees⟩ := h
  exact ⟨⟨revertSide_same hl1.users hfollows.users (husers.trans hcaches.users.symm),
    revertSide_same hl1.kapps hfollows.kapps (hkapps.trans hcaches.kapps.symm),
    revertSide_same hl1.peers hfollows.peers (hpeers.trans hcaches.peers.symm)⟩, hfees⟩

/-- **A failed transaction leaves only its bandwidth fee.**  Whatever its contracts do, when
`ProcessTransaction` fails the stores, the caches and the fees are those right after
`ProcessBandwidthFee`, which took the fee, made the swap and increased the nonce of the sender. -/
theorem failed_leaves_bandwidth_fee (hl : l.Sound) (hhash : l.fees.booked tx.hash = ⟨0, 0⟩)
    (henter : enterBlock env tx l = (.ok (), l₁))
    (hfail : processTransaction env tx l₁ = (.error e, l₂)) :
    (∃ l', processAndRemoveBadTransaction env tx l = (.error e, l') ∧ l'.SameStores l₁ ∧
      l'.fees.Same l₁.fees) ∧
    ∃ owner users account, l.users.getExisting tx.sender = .ok (owner, users) ∧
      l₁.users.db.tries.mainTrie tx.sender = some account ∧
      account.fields = paidFields tx.toTransaction owner.fields := by
  have hends := enterBlock_paid env hl tx l rfl
  rw [henter] at hends
  obtain ⟨owner, users, hget, hpaid⟩ := hends
  obtain ⟨account, haccount, hfields⟩ := hpaid.account
  obtain ⟨hstores, hfees⟩ := revertTo_same (hl.follows hpaid.follows) hpaid.caches hfail
  refine ⟨⟨l₂.revertTo l₁, ?_, hstores, hfees (hpaid.booked hhash)⟩, owner, users, account, hget,
    haccount, hfields⟩
  change Process.andThen (enterBlock env tx) (fun _ => processOrRevert env tx) l = _
  simp only [Process.andThen, henter, processOrRevert, hfail]

end

/-! ## A failing transaction -/

/-- Encodings that read no pool. -/
def sampleMarshalizer : Marshalizer :=
  ⟨fun _ => [1], fun _ => .ok UserKDA.fresh, fun _ => [1], fun _ => none,
    fun _ => .error .ErrAssetNotFound⟩

/-- One key per address, and every signature verifies. -/
def sampleEnv : Env Unit Unit Unit :=
  ⟨⟨fun _ => some (), fun _ _ _ => true⟩,
    fun tx => reject (¬ (0 ≤ tx.bandwidthFee ∧ 0 ≤ tx.kAppFee)) .ErrInsufficientFee,
    fun _ _ h => not_not.1 (reject_eq_ok.1 h), fun _ _ => .ok 1, 100, fun _ => false, (),
    sampleMarshalizer⟩

/-- A store as it was committed. -/
def committedSide {F : Type} (accounts : Bytes → Option (Stored F)) : CachedDB F :=
  ⟨⟨⟨accounts, fun _ => none⟩, [], accounts⟩, []⟩

theorem committedSide_sound {F : Type} (accounts : Bytes → Option (Stored F)) :
    Transactions.Sound (committedSide accounts) :=
  ⟨.of_nil fun _ _ _ _ htrie => (nomatch htrie), fun _ => rfl⟩

def sampleLedger : Ledger Unit Unit Unit :=
  ⟨committedSide fun a => if a = [1] then some ⟨⟨100, 0, [], ()⟩, none⟩ else none,
    committedSide fun _ => none, committedSide fun _ => none, ⟨∅, 0, 0⟩, 0⟩

/-- The first contract writes its user to the store, the second one fails. -/
def sampleTx : Tx Unit Unit Unit where
  sender := [1]
  nonce := 0
  permissionID := 0
  contractTypes := [0]
  kdaFee := none
  bandwidthFee := 10
  kAppFee := 5
  signature := [[9]]
  hash := [7]
  contracts :=
    [fun _ => ([.user (.getExisting [1]), .user (.write [1] ⟨0, 1, [], ()⟩ [([3], [4])]),
        .user (.save [1])], none),
      fun _ => ([.kapp (.load () [2])], some .ErrInvalidValue)]

theorem failed_leaves_bandwidth_fee_sample :
    ∃ l', processAndRemoveBadTransaction sampleEnv sampleTx sampleLedger =
        (.error .ErrInvalidValue, l') ∧
      l'.SameStores (enterBlock sampleEnv sampleTx sampleLedger).2 ∧
      l'.fees.Same (enterBlock sampleEnv sampleTx sampleLedger).2.fees := by
  have henter : enterBlock sampleEnv sampleTx sampleLedger =
      (.ok (), (enterBlock sampleEnv sampleTx sampleLedger).2) := rfl
  have hsound : sampleLedger.Sound :=
    ⟨committedSide_sound _, committedSide_sound _, committedSide_sound _⟩
  exact (failed_leaves_bandwidth_fee hsound rfl henter rfl).1

end KleverGo.Processing
