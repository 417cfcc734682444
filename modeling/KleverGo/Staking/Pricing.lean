import KleverGo.Staking.History

/-!
# Pools are priced by the stake that was live

Runs of freezes, unfreezes and claims of one holder of a custom asset, at epochs that do not
decrease, with deposits into the pools of the asset at any of them.

* `PricingInv`: the bucket stands for the log of the run, the pools that were settled are those
  up to the cursor, and none of them was left out.
* `pools_priced_by_live_stake`: **every claim pays a pool on the stake replayed from the log, pays
  no pool twice and leaves out no pool in which the bucket was live.**
-/

namespace KleverGo.Staking

open List

/-- The records of one holder of an asset. -/
structure Holder where
  acc : UserAccount
  records : ClaimRecords

inductive StakeCall where
  | freeze (value : Int64)
  | unfreeze
  | claim
  | deposit (maxEpochsUnclaimed : UInt32) (currencyID : Bytes) (amount : Int64)

/-- A call and the block it runs in. -/
structure StakeOp where
  epoch : UInt32
  time : Int64
  call : StakeCall

section
variable (P : Platform) (fc : ForkController) (assetID : Bytes)

def execStake (s : Holder) (op : StakeOp) : Except Err Holder :=
  match op.call with
  | .freeze value => do
    let (staking, userKDA) ← freeze assetID assetID value
      ⟨op.epoch, op.time, fc.fixStakingBuckets, fc.fixAuditChangesV5⟩
      s.records.staking s.records.userKDA
    pure { s with records := { s.records with staking := staking, userKDA := userKDA } }
  | .unfreeze => do
    let (staking, userKDA, _, _) ← unfreeze assetID assetID op.epoch fc.fixStakingBuckets
      s.records.staking s.records.userKDA
    pure { s with records := { s.records with staking := staking, userKDA := userKDA } }
  | .claim => do
    let (_, acc, records) ← claimBalance P fc assetID op.epoch op.time s.acc s.records false
    pure ⟨acc, records⟩
  | .deposit maxEpochsUnclaimed currencyID amount => do
    let staking ← depositFPR fc maxEpochsUnclaimed op.epoch currencyID amount s.records.staking
    pure { s with records := { s.records with staking := staking } }

def runStake (s : Holder) (ops : List StakeOp) : Except Err Holder :=
  ops.foldlM (execStake P fc assetID) s

def Holder.bucket (s : Holder) : Option UserBucket := s.records.userKDA.bucketMap.lookup assetID

def Holder.pools (s : Holder) : List UInt32 := s.records.staking.fpr.map (·.epoch)

/-- The pools a claim pays, with the stake it pays them on. -/
def settlements (s : Holder) (epoch : UInt32) : List (UInt32 × Int64) :=
  s.records.staking.fpr.filterMap fun fpr =>
    (settledStake fc (s.bucket assetID) (lastClaimEpoch s.records.userKDA) epoch fpr).map
      fun stake => (fpr.epoch, stake)

/-- The pool epochs an operation settles. -/
def settledBy (s : Holder) (op : StakeOp) : List UInt32 :=
  match op.call with
  | .claim => (settlements fc assetID s op.epoch).map Prod.fst
  | _ => []

def settledByRun (s : Holder) : List StakeOp → List UInt32
  | [] => []
  | op :: rest =>
    settledBy fc assetID s op ++
      match execStake P fc assetID s op with
      | .ok s' => settledByRun s' rest
      | .error _ => []

end

/-- What an operation adds to the log. -/
def StakeOp.log (op : StakeOp) : StakeLog :=
  match op.call with
  | .freeze value => [(op.epoch, .freeze value)]
  | .unfreeze => [(op.epoch, .unfreeze)]
  | _ => []

def logOf (ops : List StakeOp) : StakeLog := ops.flatMap StakeOp.log

/-- The pool epochs that are open after an operation: a deposit opens one and closes those that it
finds expired, of which `Deposit` looks at the epoch only. -/
def openAfter (fc : ForkController) (pools : List UInt32) (op : StakeOp) : List UInt32 :=
  match op.call with
  | .deposit maxEpochsUnclaimed _ _ =>
    (op.epoch + 1) ::
      pools.filter fun e => notExpired fc maxEpochsUnclaimed op.epoch ⟨0, 0, e, 0, ∅⟩
  | _ => pools

/-! ## The invariant -/

structure PricingInv (fc : ForkController) (assetID : Bytes) (log : StakeLog) (now : UInt32)
    (settled : List UInt32) (s : Holder) : Prop where
  fpri : s.records.staking.interestType = .FPRI
  claims : s.records.userKDA.lastClaim ≠ none
  cursor : lastClaimEpoch s.records.userKDA ≤ now
  keys : ∀ k b, s.records.userKDA.bucketMap.lookup k = some b → k = assetID
  tracks : Tracks fc log now (lastClaimEpoch s.records.userKDA) (s.bucket assetID)
  pools : s.pools.Nodup
  once : settled.Nodup
  upTo : ∀ e ∈ settled, e ≤ lastClaimEpoch s.records.userKDA
  complete : ∀ e ∈ s.pools, e ≤ lastClaimEpoch s.records.userKDA → replayedStake log e ≠ 0 →
    e ∈ settled

variable {P : Platform} {fc : ForkController} {assetID : Bytes}

theorem settlements_epochs_sublist (s : Holder) (epoch : UInt32) :
    ((settlements fc assetID s epoch).map Prod.fst).Sublist s.pools := by
  unfold settlements Holder.pools
  induction s.records.staking.fpr with
  | nil => exact .slnil
  | cons fpr rest ih =>
    rw [filterMap_cons]
    cases settledStake fc (s.bucket assetID) (lastClaimEpoch s.records.userKDA) epoch fpr with
    | none => exact ih.cons _
    | some v => exact ih.cons_cons _

/-- A settled pool lies between the cursor and the block, and is paid on the stake used for it. -/
theorem mem_settlements {s : Holder} {epoch e : UInt32} {v : Int64} :
    (e, v) ∈ settlements fc assetID s epoch ↔
      e ∈ s.pools ∧ lastClaimEpoch s.records.userKDA < e ∧ e ≤ epoch ∧
        (s.bucket assetID).bind (stakeUsed fc · e) = some v := by
  simp only [settlements, Holder.pools, mem_filterMap, Option.map_eq_some_iff, Prod.mk.injEq, mem_map,
    settledStake]
  constructor
  · rintro ⟨fpr, hmem, w, hw, rfl, rfl⟩
    split at hw
    · cases hw
    · rename_i hin
      exact ⟨⟨fpr, hmem, rfl⟩, by grind, by grind, hw⟩
  · rintro ⟨⟨fpr, hmem, rfl⟩, hlow, hhigh, hused⟩
    refine ⟨fpr, hmem, v, ?_, rfl, rfl⟩
    rw [if_neg (by grind)]
    exact hused

namespace PricingInv

variable {log : StakeLog} {now : UInt32} {settled : List UInt32} {s s' : Holder} {op : StakeOp}

section
variable (h : PricingInv fc assetID log now settled s)
include h

theorem advance {epoch : UInt32} (hnow : now ≤ epoch) : PricingInv fc assetID log epoch settled s :=
  { h with
    cursor := by have := h.cursor; grind
    tracks := h.tracks.advance hnow (UInt32.le_refl _) }

/-- A change of the bucket that the log records keeps the invariant. -/
theorem move {epoch : UInt32} {move : StakeMove} {b : UserBucket} (hnow : now ≤ epoch)
    (hfpri : s'.records.staking.interestType = s.records.staking.interestType)
    (hpools : s'.pools = s.pools)
    (hlast : s'.records.userKDA.lastClaim = s.records.userKDA.lastClaim)
    (hbuckets : s'.records.userKDA.bucketMap = s.records.userKDA.bucketMap.insert assetID b)
    (ht : Tracks fc (log ++ [(epoch, move)]) epoch (lastClaimEpoch s.records.userKDA) (some b)) :
    PricingInv fc assetID (log ++ [(epoch, move)]) epoch settled s' := by
  have hcursor : lastClaimEpoch s'.records.userKDA = lastClaimEpoch s.records.userKDA := by
    rw [lastClaimEpoch, lastClaimEpoch, hlast]
  have hcur := h.cursor
  constructor
  case fpri => rw [hfpri]; exact h.fpri
  case claims => rw [hlast]; exact h.claims
  case cursor => rw [hcursor]; grind
  case keys =>
    intro k b hk
    rw [hbuckets, FMap.lookup_insert_eq] at hk
    split at hk
    · assumption
    · exact h.keys k b hk
  case tracks => rwa [hcursor, Holder.bucket, hbuckets, FMap.lookup_insert_eq, if_pos rfl]
  case pools => rw [hpools]; exact h.pools
  case once => exact h.once
  case upTo => rw [hcursor]; exact h.upTo
  case complete =>
    rw [hpools, hcursor]
    -- a later change does not alter what was live up to its own epoch
    intro e he hle hne
    rw [replayedStake, replayBefore_append_late _ _ (UInt32.not_lt.2 (by grind))] at hne
    exact h.complete e he hle hne

end

section
variable (h3 : fc.fixAuditChangesV3 = true) (h5 : fc.fixAuditChangesV5 = true)
  (hklv : assetID ≠ KLVIdentifier) (hkfi : assetID ≠ KFIIdentifier)
  (h : PricingInv fc assetID log now settled s) (hnow : now ≤ op.epoch)
include h3 h5 hklv hkfi h hnow

theorem freeze {value : Int64} (hcall : op.call = .freeze value)
    (hexec : execStake P fc assetID s op = .ok s') :
    PricingInv fc assetID (log ++ op.log) op.epoch (settled ++ settledBy fc assetID s op) s' := by
  simp only [execStake, hcall, bind_eq_ok, pure_eq_ok] at hexec
  obtain ⟨⟨staking, userKDA⟩, hfreeze, rfl⟩ := hexec
  obtain ⟨-, key, old, hkey, rfl, rfl, rfl⟩ := freeze_spec hfreeze
  rw [parsedBucketID_custom hklv hkfi] at hkey
  subst hkey
  simp only [StakeOp.log, settledBy, hcall, append_nil]
  exact h.move hnow rfl rfl rfl rfl (h.tracks.freeze h3 h5
    ⟨op.epoch, op.time, fc.fixStakingBuckets, fc.fixAuditChangesV5⟩ hnow h5 value)

theorem unfreeze (hcall : op.call = .unfreeze) (hexec : execStake P fc assetID s op = .ok s') :
    PricingInv fc assetID (log ++ op.log) op.epoch (settled ++ settledBy fc assetID s op) s' := by
  simp only [execStake, hcall, bind_eq_ok, pure_eq_ok] at hexec
  obtain ⟨⟨staking, userKDA, _, _⟩, hunfreeze, rfl⟩ := hexec
  obtain ⟨key, b, hkey, hb, hstaked, rfl, rfl, -, -⟩ := unfreeze_spec hunfreeze
  rw [parsedBucketID_custom hklv hkfi] at hkey
  subst hkey
  have ht := h.tracks
  rw [Holder.bucket, hb] at ht
  simp only [StakeOp.log, settledBy, hcall, append_nil]
  exact h.move hnow rfl rfl rfl rfl (ht.unfreeze h3 h5 hnow hstaked)

end

theorem claim (hkfi : fc.claimKFI = true) (h : PricingInv fc assetID log now settled s)
    (hnow : now ≤ op.epoch) (hcall : op.call = .claim)
    (hexec : execStake P fc assetID s op = .ok s') :
    PricingInv fc assetID (log ++ op.log) op.epoch (settled ++ settledBy fc assetID s op) s' := by
  simp only [execStake, hcall, bind_eq_ok, pure_eq_ok] at hexec
  obtain ⟨r, hclaim, rfl⟩ := hexec
  obtain ⟨hstaking, balance, huser⟩ := claimBalance_fpri hkfi h.fpri h.keys hclaim
  simp only [StakeOp.log, settledBy, hcall, append_nil]
  have hbuckets : r.2.2.userKDA.bucketMap = s.records.userKDA.bucketMap := by rw [huser]; rfl
  have hcursor : lastClaimEpoch r.2.2.userKDA = op.epoch := by rw [huser]; rfl
  have hpools : (⟨r.2.1, r.2.2⟩ : Holder).pools = s.pools := by
    rw [Holder.pools, hstaking]
    exact settlePools_epochs _ _ _
  have hcur := h.cursor
  constructor
  case fpri => rw [hstaking]; exact h.fpri
  case claims => rw [huser]; exact Option.some_ne_none _
  case cursor => rw [hcursor]; exact UInt32.le_refl _
  case keys => rw [hbuckets]; exact h.keys
  case tracks =>
    rw [hcursor, Holder.bucket, hbuckets]
    exact h.tracks.advance hnow (by grind)
  case pools => rw [hpools]; exact h.pools
  case once =>
    refine nodup_append.2 ⟨h.once, (settlements_epochs_sublist s op.epoch).nodup h.pools, ?_⟩
    rintro e he e' he' rfl
    -- a pool settled before lies up to the cursor, one settled now after it
    obtain ⟨⟨_, v⟩, hm, rfl⟩ := mem_map.1 he'
    have h1 := h.upTo _ he
    have h2 := (mem_settlements.1 hm).2.1
    grind
  case upTo =>
    rw [hcursor]
    intro e he
    rcases mem_append.1 he with he | he
    · have := h.upTo e he
      grind
    · obtain ⟨⟨_, v⟩, hm, rfl⟩ := mem_map.1 he
      exact (mem_settlements.1 hm).2.2.1
  case complete =>
    rw [hpools, hcursor]
    intro e he hle hne
    rw [mem_append]
    by_cases hold : e ≤ lastClaimEpoch s.records.userKDA
    · exact .inl (h.complete e he hold hne)
    have hlow : lastClaimEpoch s.records.userKDA < e := UInt32.not_le.1 hold
    have hused := h.tracks.used e hlow
    cases hb : (s.bucket assetID).bind (stakeUsed fc · e) with
    | none =>
      rw [hb] at hused
      exact absurd hused.symm hne
    | some v => exact .inr (mem_map.2 ⟨(e, v), mem_settlements.2 ⟨he, hlow, hle, hb⟩, rfl⟩)

theorem replayedStake_zero (log : StakeLog) : replayedStake log 0 = 0 := by
  have hnone : (log.filter fun e => decide (e.1 < 0)) = [] := by
    rw [filter_eq_nil_iff]
    intro e _
    simp only [decide_eq_true_eq]
    grind
  rw [replayedStake, replayBefore, hnone]
  rfl

theorem depositPool_epoch (epoch : UInt32) (currencyID : Bytes) (amount totalStaked : Int64)
    (next : FPRData) :
    (depositPool epoch currencyID amount totalStaked next).epoch = epoch + 1 := by
  unfold depositPool
  split <;> rfl

theorem deposit (h : PricingInv fc assetID log now settled s) (hnow : now ≤ op.epoch)
    {maxEpochsUnclaimed : UInt32} {currencyID : Bytes} {amount : Int64}
    (hcall : op.call = .deposit maxEpochsUnclaimed currencyID amount)
    (hexec : execStake P fc assetID s op = .ok s') :
    PricingInv fc assetID (log ++ op.log) op.epoch (settled ++ settledBy fc assetID s op) s' := by
  simp only [execStake, hcall, depositFPR, bind_eq_ok, pure_eq_ok] at hexec
  obtain ⟨_, ⟨_, -, rfl⟩, rfl⟩ := hexec
  simp only [StakeOp.log, settledBy, hcall, append_nil]
  have hcur := h.cursor
  constructor
  case fpri => exact h.fpri
  case claims => exact h.claims
  case cursor => exact UInt32.le_trans h.cursor hnow
  case keys => exact h.keys
  case tracks => exact h.tracks.advance hnow (UInt32.le_refl _)
  case pools =>
    simp only [Holder.pools, map_append, map_cons, map_nil, depositPool_epoch]
    refine nodup_append.2 ⟨(filter_sublist.map _).nodup h.pools, by simp, ?_⟩
    rintro e he e' he' rfl
    obtain ⟨fpr, hm, rfl⟩ := mem_map.1 he
    have hf := (mem_filter.1 hm).2
    simp only [decide_eq_true_eq] at hf
    exact hf.1 (mem_singleton.1 he')
  case once => exact h.once
  case upTo => exact h.upTo
  case complete =>
    intro e he hle hne
    have hle : e ≤ lastClaimEpoch s.records.userKDA := hle
    simp only [Holder.pools, map_append, map_cons, map_nil, depositPool_epoch] at he
    rcases mem_append.1 he with he | he
    · exact h.complete e ((filter_sublist.map _).subset he) hle hne
    · -- the new pool comes after the cursor, unless its epoch wraps around to zero
      have he := mem_singleton.1 he
      have hzero : e = 0 := by grind
      exact absurd (hzero ▸ replayedStake_zero log) hne

/-- No operation removes an open pool from the record. -/
theorem exec_open (h : PricingInv fc assetID log now settled s) (hckfi : fc.claimKFI = true)
    {pools : List UInt32} (hpools : pools ⊆ s.pools)
    (hexec : execStake P fc assetID s op = .ok s') : openAfter fc pools op ⊆ s'.pools := by
  unfold openAfter
  cases hcall : op.call with
  | freeze value =>
    simp only [execStake, hcall, bind_eq_ok, pure_eq_ok] at hexec
    obtain ⟨⟨staking, userKDA⟩, hfreeze, rfl⟩ := hexec
    obtain ⟨-, key, old, -, -, rfl, -⟩ := freeze_spec hfreeze
    exact hpools
  | unfreeze =>
    simp only [execStake, hcall, bind_eq_ok, pure_eq_ok] at hexec
    obtain ⟨⟨staking, userKDA, _, _⟩, hunfreeze, rfl⟩ := hexec
    obtain ⟨key, b, -, -, -, rfl, -⟩ := unfreeze_spec hunfreeze
    exact hpools
  | claim =>
    simp only [execStake, hcall, bind_eq_ok, pure_eq_ok] at hexec
    obtain ⟨r, hclaim, rfl⟩ := hexec
    obtain ⟨hstaking, -⟩ := claimBalance_fpri hckfi h.fpri h.keys hclaim
    rw [Holder.pools, hstaking, settlePools_epochs]
    exact hpools
  | deposit maxEpochsUnclaimed currencyID amount =>
    simp only [execStake, hcall, depositFPR, bind_eq_ok, pure_eq_ok] at hexec
    obtain ⟨_, ⟨_, -, rfl⟩, rfl⟩ := hexec
    simp only [Holder.pools, map_append, map_cons, map_nil, depositPool_epoch]
    intro e he
    rcases mem_cons.1 he with rfl | he
    · exact mem_append_right _ mem_cons_self
    obtain ⟨hmem, hvalid⟩ := mem_filter.1 he
    obtain ⟨fpr, hfpr, rfl⟩ := mem_map.1 (hpools hmem)
    -- the pool of the next epoch is replaced by the one with the deposit
    by_cases hnext : fpr.epoch = op.epoch + 1
    · exact mem_append_right _ (hnext ▸ mem_cons_self)
    · exact mem_append_left _ (mem_map_of_mem (mem_filter.2 ⟨hfpr, by simpa using ⟨hnext, hvalid⟩⟩))

section
variable (h3 : fc.fixAuditChangesV3 = true) (h5 : fc.fixAuditChangesV5 = true)
  (hckfi : fc.claimKFI = true) (hklv : assetID ≠ KLVIdentifier) (hkfi : assetID ≠ KFIIdentifier)
  (h : PricingInv fc assetID log now settled s)
include h3 h5 hckfi hklv hkfi h

theorem exec (hnow : now ≤ op.epoch) (hexec : execStake P fc assetID s op = .ok s') :
    PricingInv fc assetID (log ++ op.log) op.epoch (settled ++ settledBy fc assetID s op) s' := by
  cases hcall : op.call with
  | freeze value => exact h.freeze h3 h5 hklv hkfi hnow hcall hexec
  | unfreeze => exact h.unfreeze h3 h5 hklv hkfi hnow hcall hexec
  | claim => exact h.claim hckfi hnow hcall hexec
  | deposit maxEpochsUnclaimed currencyID amount => exact h.deposit hnow hcall hexec

/-- A run keeps the invariant, up to any epoch at its end or after it, and the open pools. -/
theorem run {ops : List StakeOp} {epoch : UInt32} {pools : List UInt32}
    (hsorted : (now :: (ops.map (·.epoch) ++ [epoch])).IsChain (· ≤ ·)) (hpools : pools ⊆ s.pools)
    (hrun : runStake P fc assetID s ops = .ok s') :
    PricingInv fc assetID (log ++ logOf ops) epoch (settled ++ settledByRun P fc assetID s ops)
      s' ∧ ops.foldl (openAfter fc) pools ⊆ s'.pools := by
  induction ops generalizing log now settled s pools with
  | nil =>
    cases hrun
    simp only [logOf, settledByRun, flatMap_nil, append_nil]
    exact ⟨h.advance (isChain_cons_cons.1 hsorted).1, hpools⟩
  | cons op rest ih =>
    simp only [map_cons, cons_append, isChain_cons_cons] at hsorted
    simp only [runStake, foldlM_cons, bind_eq_ok] at hrun
    obtain ⟨s₁, hop, hrest⟩ := hrun
    have hstep := h.exec h3 h5 hckfi hklv hkfi hsorted.1 hop
    have hrec := ih hstep hsorted.2 (h.exec_open hckfi hpools hop) hrest
    simp only [logOf, settledByRun, flatMap_cons, hop, ← append_assoc] at hrec ⊢
    exact hrec

end

end PricingInv

/-! ## Every claim of a run -/

/-- A holder who has not staked, of an asset with pools of different epochs. -/
structure StakeStart (now : UInt32) (s : Holder) : Prop where
  fpri : s.records.staking.interestType = .FPRI
  claims : s.records.userKDA.lastClaim ≠ none
  cursor : lastClaimEpoch s.records.userKDA ≤ now
  unstaked : s.records.userKDA.bucketMap = ∅
  pools : (s.records.staking.fpr.map (·.epoch)).Nodup

theorem StakeStart.inv {now : UInt32} {s : Holder} (h : StakeStart now s) (fc : ForkController)
    (assetID : Bytes) : PricingInv fc assetID [] now [] s where
  fpri := h.fpri
  claims := h.claims
  cursor := h.cursor
  keys k b hb := by
    rw [h.unstaked, AList.lookup_empty] at hb
    cases hb
  tracks := by
    rw [Holder.bucket, h.unstaked, AList.lookup_empty]
    exact .nil fc now _
  pools := h.pools
  once := .nil
  upTo := by simp
  complete e _ _ hne := absurd rfl hne

theorem settledByRun_append {ops rest : List StakeOp} {s s' : Holder}
    (h : runStake P fc assetID s ops = .ok s') :
    settledByRun P fc assetID s (ops ++ rest) =
      settledByRun P fc assetID s ops ++ settledByRun P fc assetID s' rest := by
  induction ops generalizing s with
  | nil =>
    cases h
    rfl
  | cons op tail ih =>
    simp only [runStake, foldlM_cons, bind_eq_ok] at h
    obtain ⟨s₁, hop, htail⟩ := h
    simp only [cons_append, settledByRun, hop, ih htail, append_assoc]

/-- **Pools are priced by the stake that was live.**  Consider a claim after any run of freezes,
unfreezes, claims and deposits at epochs that do not decrease.  It pays every pool on its settled
stake; that is the stake replayed from the freezes and unfreezes before the pool's epoch; the run
has settled no pool epoch twice; every pool up to the claim in which the bucket was live has been
settled, by this claim or an earlier one; and a pool leaves the record only when a later deposit finds
it expired. -/
theorem pools_priced_by_live_stake {now : UInt32} {s s₁ s₂ : Holder} {ops : List StakeOp}
    {op : StakeOp} (h3 : fc.fixAuditChangesV3 = true) (h5 : fc.fixAuditChangesV5 = true)
    (hckfi : fc.claimKFI = true) (hklv : assetID ≠ KLVIdentifier) (hkfi : assetID ≠ KFIIdentifier)
    (hstart : StakeStart now s)
    (hsorted : (now :: (ops.map (·.epoch) ++ [op.epoch])).IsChain (· ≤ ·))
    (hrun : runStake P fc assetID s ops = .ok s₁) (hcall : op.call = .claim)
    (hexec : execStake P fc assetID s₁ op = .ok s₂) :
    s₂.records.staking = { s₁.records.staking with
      fpr := (settlePools P fc (settledStake fc (s₁.bucket assetID)
        (lastClaimEpoch s₁.records.userKDA) op.epoch) ∅ s₁.records.staking.fpr).2 } ∧
    (∀ e v, (e, v) ∈ settlements fc assetID s₁ op.epoch → v = replayedStake (logOf ops) e) ∧
    (settledByRun P fc assetID s (ops ++ [op])).Nodup ∧
    (∀ fpr ∈ s₁.records.staking.fpr, fpr.epoch ≤ op.epoch →
      replayedStake (logOf ops) fpr.epoch ≠ 0 →
      fpr.epoch ∈ settledByRun P fc assetID s (ops ++ [op])) ∧
    ops.foldl (openAfter fc) s.pools ⊆ s₁.pools := by
  obtain ⟨h1, hopen⟩ :=
    (hstart.inv fc assetID).run h3 h5 hckfi hklv hkfi hsorted (Subset.refl s.pools) hrun
  have h2 := h1.exec h3 h5 hckfi hklv hkfi (UInt32.le_refl _) hexec
  have hlog : op.log = [] := by simp [StakeOp.log, hcall]
  have hsettled : settledByRun P fc assetID s (ops ++ [op]) =
      [] ++ settledByRun P fc assetID s ops ++ settledBy fc assetID s₁ op := by
    rw [settledByRun_append hrun]
    simp [settledByRun, hexec]
  simp only [execStake, hcall, bind_eq_ok, pure_eq_ok] at hexec
  obtain ⟨r, hclaim, rfl⟩ := hexec
  obtain ⟨hstaking, balance, huser⟩ := claimBalance_fpri hckfi h1.fpri h1.keys hclaim
  refine ⟨hstaking, fun e v hm => ?_, hsettled ▸ h2.once, fun fpr hfpr hle hne => ?_, hopen⟩
  · obtain ⟨-, hlow, -, hused⟩ := mem_settlements.1 hm
    have := h1.tracks.used e hlow
    rw [hused] at this
    simpa using this
  rw [hsettled]
  refine h2.complete fpr.epoch ?_ ?_ (by simpa [hlog] using hne)
  · simp only [Holder.pools, hstaking, settlePools_epochs]
    exact mem_map_of_mem hfpr
  · simp only [huser]
    exact hle

/-- A holder of 1000 units of the asset `X`, which has one pool without rewards. -/
def sampleHolder : Holder where
  acc := ⟨0, 0, ∅⟩
  records :=
    { staking := ⟨.FPRI, [], [⟨0, 0, 0, 0, ∅⟩], 0, 1, 0, 2⟩
      kda := ⟨.Fungible, [88], [3], [], none, false, false, false, [], 0, 0, 0⟩
      userKDA := { UserKDA.fresh with balance := 1000 } }

/-- A freeze, a deposit for epoch 2, a freeze in epoch 2 and an unfreeze in epoch 3. -/
def sampleStakeOps : List StakeOp :=
  [⟨1, 10, .freeze 40⟩, ⟨1, 11, .deposit 100 KLVIdentifier 500⟩, ⟨2, 20, .freeze 60⟩,
    ⟨2, 21, .deposit 100 KLVIdentifier 700⟩, ⟨3, 30, .unfreeze⟩]

theorem sampleHolder_start : StakeStart 0 sampleHolder where
  fpri := rfl
  claims := Option.some_ne_none _
  cursor := UInt32.le_refl _
  unstaked := rfl
  pools := by decide

def sampleStaked : Holder :=
  (runStake samplePlatform .allActive [88] sampleHolder sampleStakeOps).toOption.getD sampleHolder

theorem pools_priced_by_live_stake_sample :
    settlements .allActive [88] sampleStaked 4 = [(2, 40), (3, 100)] ∧
      ∀ e v, (e, v) ∈ settlements .allActive [88] sampleStaked 4 →
        v = replayedStake (logOf sampleStakeOps) e :=
  ⟨by decide +kernel, (pools_priced_by_live_stake (P := samplePlatform) rfl rfl rfl (by decide)
    (by decide) sampleHolder_start (by decide +kernel)
    (eq_ok_getD sampleHolder (by decide +kernel)) rfl
    (eq_ok_getD sampleHolder (x := execStake samplePlatform .allActive [88] sampleStaked
      ⟨4, 40, .claim⟩) (by decide +kernel))).2.1⟩

/-- **Without `ClaimKFI`** the cursor only moves when the claim gains some of the staked asset
itself, so a pool in KLV is settled by every claim.  And with all flags active an expired pool is
removed by a deposit and never settled. -/
theorem pool_settled_twice_or_never :
    (∃ fc : ForkController, fc.fixAuditChangesV3 = true ∧ fc.fixAuditChangesV5 = true ∧
      fc.fixStakingBuckets = true ∧ StakeStart 0 sampleHolder ∧
      ∃ ops : List StakeOp, (0 :: ops.map (·.epoch)).IsChain (· ≤ ·) ∧
        (runStake samplePlatform fc [88] sampleHolder ops).isOk = true ∧
        ¬ (settledByRun samplePlatform fc [88] sampleHolder ops).Nodup) ∧
    let ops : List StakeOp := [⟨1, 10, .freeze 40⟩, ⟨1, 11, .deposit 100 KLVIdentifier 500⟩,
      ⟨200, 20, .deposit 100 KLVIdentifier 700⟩, ⟨201, 30, .claim⟩]
    (runStake samplePlatform .allActive [88] sampleHolder ops).isOk = true ∧
      replayedStake (logOf ops) 2 = 40 ∧
      settledByRun samplePlatform .allActive [88] sampleHolder ops = [201] := by
  refine ⟨⟨{ ForkController.allActive with claimKFI := false }, rfl, rfl, rfl, sampleHolder_start,
    [⟨1, 10, .freeze 40⟩, ⟨1, 11, .deposit 100 KLVIdentifier 500⟩, ⟨2, 20, .claim⟩,
      ⟨3, 30, .claim⟩], ?_, ?_, ?_⟩, ?_, ?_, ?_⟩
  all_goals decide +kernel

end KleverGo.Staking
