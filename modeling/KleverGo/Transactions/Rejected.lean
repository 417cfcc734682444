import KleverGo.Transactions.Likeness

/-!
# Rejected transactions

`processAndRemoveBadTransaction` takes nothing back when it rejects a transaction; what the rejected
transaction left in the shared cache is stored by the next `SaveAll`.

* `enterBlock_keeps`: a rejected transaction leaves a ledger that no call can tell from the one before,
  unless it looked up the fee pools before any of them exists.
* `rejected_leaves_nothing_iff`: **exactly then does it leave something**, the KApp account of the fee
  pools; otherwise all further transactions give the stores that they give without it.
* `rejected_creates_feesPool`: a rejected transaction whose account the next transaction stores.
-/

namespace KleverGo.Processing

open Transactions Process Amount

variable {X K P PublicKey Cost : Type}

namespace Ledger

theorem Alike.refl {l : Ledger X K P} (h : l.Sound) : l.Alike l :=
  ⟨h, h, ⟨rfl, rfl⟩, ⟨rfl, rfl⟩, ⟨rfl, rfl⟩, rfl⟩

end Ledger

/-- The stored account of the fee pools exists, or its handler is in the cache. -/
def HasFeesPool (l : Ledger X K P) : Prop := (handler l.kapps KDAFeesPoolKAppAddress).isSome

/-- A ledger like an earlier one, with the handler of a user in the cache. -/
structure Kept (l₀ : Ledger X K P) (addr : Bytes) (h : Handler (UserData X))
    (l : Ledger X K P) : Prop where
  alike : l₀.Alike l
  lookup : l.users.cache.lookup addr = some h

section
variable {l₀ : Ledger X K P} {addr : Bytes} {h : Handler (UserData X)}

theorem getExistingUser_kept (hl0 : l₀.Sound) (addr : Bytes) :
    Triple (· = l₀) (getExistingUser addr : Proc X K P (Handler (UserData X)))
      (Kept l₀ addr) l₀.Alike := by
  rintro l rfl
  unfold getExistingUser attempt
  dsimp only
  by_cases ha : addr = []
  · rw [ha, getExisting_nil hl0.users.toCoherent]
    exact .refl hl0
  cases hh : handler l.users addr with
  | none =>
    rw [getExisting_of_none ha hh]
    exact .refl hl0
  | some h =>
    obtain ⟨k, hget, hreads⟩ := getExisting_of_some ha hh
    have hgives := hl0.users.gives (getExisting_gives hget)
    rw [hget]
    exact ⟨⟨hl0, hl0.setUsers hgives.1, ⟨hreads.accounts.symm, hreads.handlers.symm⟩, ⟨rfl, rfl⟩,
      ⟨rfl, rfl⟩, rfl⟩, hreads.lookup⟩

theorem Kept.setKApps {l : Ledger X K P} (hk : Kept l₀ addr h l) {a : Bytes} {u : Handler K}
    {kapps : CachedDB K} (hg : Gives l.kapps a u kapps) (hreads : Reads l.kapps a u kapps) :
    Kept l₀ addr h { l with kapps := kapps } :=
  ⟨⟨hk.alike.sound, hk.alike.sound'.setKApps (hk.alike.sound'.kapps.gives hg).1, hk.alike.users,
    ⟨hk.alike.kapps.accounts.trans hreads.accounts.symm,
      hk.alike.kapps.handlers.trans hreads.handlers.symm⟩, hk.alike.peers, hk.alike.gasUsed⟩,
    hk.lookup⟩

theorem getExistingKapp_kept {a : Bytes} (ha : a ≠ []) :
    Triple (Kept l₀ addr h) (getExistingKapp a : Proc X K P (Handler K))
      (fun _ => Kept l₀ addr h) l₀.Alike := by
  intro l hk
  unfold getExistingKapp attempt
  dsimp only
  cases hh : handler l.kapps a with
  | none =>
    rw [getExisting_of_none ha hh]
    exact hk.alike
  | some u =>
    obtain ⟨k, hget, hreads⟩ := getExisting_of_some ha hh
    rw [hget]
    exact hk.setKApps (getExisting_gives hget) hreads

theorem getFeesPoolKApp_kept (env : Env K PublicKey Cost) (hpool : HasFeesPool l₀) :
    Triple (Kept l₀ addr h) (getFeesPoolKApp env : Proc X K P (Handler K))
      (fun app l => Kept l₀ addr h l ∧ handler l₀.kapps KDAFeesPoolKAppAddress = some app)
      l₀.Alike := by
  intro l hk
  obtain ⟨app, hh⟩ := Option.isSome_iff_exists.1 hpool
  obtain ⟨k, hload, hreads⟩ := load_of_some env.newFeesPoolKApp (by decide)
    (hk.alike.kapps.handlers ▸ hh : handler l.kapps KDAFeesPoolKAppAddress = some app)
  unfold getFeesPoolKApp loadKApp attempt
  dsimp only
  rw [hload]
  exact ⟨hk.setKApps (load_gives hload) hreads, hh⟩

end

/-! ## No failure after the first change -/

/-- The KLV of the sender is not negative, and fits with that of the pool it pays its fees in. -/
def Solvent (env : Env K PublicKey Cost) (tx : Transaction) (l : Ledger X K P) : Prop :=
  ∀ owner, handler l.users tx.sender = some owner → 0 ≤ owner.fields.balance.toInt ∧
    ∀ fee app pool, tx.kdaFee = some fee → handler l.kapps KDAFeesPoolKAppAddress = some app →
      getPool env app fee.kda = .ok pool →
      owner.fields.balance.toInt + pool.klvBalance.toInt < 2 ^ 63

theorem validate_spec {env : Env K PublicKey Cost} {app : Handler K} {klvFee : Int64}
    {info : KDAFee} {pool : KDAFeesPoolData} (hv : validate env app klvFee info = .ok pool) :
    getPool env app info.kda = .ok pool ∧ 0 ≤ klvFee.toInt ∧
      klvFee.toInt ≤ pool.klvBalance.toInt := by
  simp only [validate, compute, bind_eq_ok, reject_eq_ok, pure_eq_ok] at hv
  obtain ⟨_, hneg, ⟨pool1, value⟩, ⟨_, hpool, _, _, _, _, _, _, hrfl⟩, _, hfunds, _, _, rfl⟩ := hv
  obtain ⟨rfl, -⟩ := Prod.mk_inj.1 hrfl
  rw [not_neg_iff] at hneg
  rw [Int64.not_lt, Int64.le_iff_toInt_le] at hfunds
  exact ⟨hpool, hneg, hfunds⟩

theorem subFromBalance_bounds {mr : Marshalizer} {h h' : Handler (UserData X)} {value : Int64}
    {assetID : Bytes} (hbalance : 0 ≤ h.fields.balance.toInt)
    (hs : subFromBalance mr h value assetID = .ok h') :
    0 ≤ h'.fields.balance.toInt ∧ h'.fields.balance.toInt ≤ h.fields.balance.toInt := by
  have hfields := (subFromBalance_spec hs).2
  unfold subFromBalance at hs
  by_cases hklv : isKLV assetID = true
  · simp only [hklv, if_true, bind_eq_ok, reject_eq_ok] at hs
    obtain ⟨_, hneg, _, hfunds, -⟩ := hs
    rw [not_neg_iff] at hneg hfunds
    rw [hfields, if_pos hklv]
    have hsub := toInt_sub hbalance hneg
    exact ⟨hfunds, by dsimp only; omega⟩
  · rw [hfields, if_neg hklv]
    exact ⟨hbalance, le_refl _⟩

theorem addToBalance_ok {h : Handler (UserData X)} {value : Int64} (hvalue : 0 ≤ value.toInt)
    (hbalance : 0 ≤ h.fields.balance.toInt)
    (hfits : h.fields.balance.toInt + value.toInt < 2 ^ 63) :
    addToBalance h value = .ok (setBalance h (h.fields.balance + value)) ∧
    (h.fields.balance + value).toInt = h.fields.balance.toInt + value.toInt := by
  have hadd := toInt_add_of_lt hbalance hvalue hfits
  have hneg : ¬ value < 0 := not_neg_iff.2 hvalue
  have hsum : ¬ h.fields.balance + value < 0 := not_neg_iff.2 (by omega)
  refine ⟨?_, hadd⟩
  simp only [addToBalance, reject, if_neg hneg, if_neg hsum]
  rfl

theorem consumeFee_ok (env : Env K PublicKey Cost) {fee : Int64} {h : Handler (UserData X)}
    (hfee : 0 ≤ fee.toInt) (hfunds : fee.toInt ≤ h.fields.balance.toInt) :
    ∃ h', consumeFee env fee h = .ok h' := by
  unfold consumeFee
  split
  · exact ⟨h, rfl⟩
  rename_i hzero
  have hpos : 0 < fee.toInt := by
    rcases Int.lt_or_eq_of_le hfee with hlt | heq
    · exact hlt
    · exact absurd (Int64.toInt_inj.1 heq.symm) hzero
  have hbalance : h.fields.balance ≠ 0 := fun heq => by
    rw [heq] at hfunds
    simp only [Int64.toInt_zero] at hfunds
    omega
  have hnlt : ¬ h.fields.balance < fee := by
    rw [Int64.not_lt, Int64.le_iff_toInt_le]
    exact hfunds
  have hsub := toInt_sub (by omega : 0 ≤ h.fields.balance.toInt) hfee
  have hrest : ¬ h.fields.balance - fee < 0 := not_neg_iff.2 (by omega)
  have hneg : ¬ fee < 0 := not_neg_iff.2 hfee
  have hguard : ¬ (h.fields.balance = 0 ∨ h.fields.balance < fee) := not_or.2 ⟨hbalance, hnlt⟩
  refine ⟨setBalance h (h.fields.balance - fee), ?_⟩
  simp only [subFromBalance, reject, if_neg hguard, if_neg hneg, if_neg hrest, isKLV]
  rfl

/-- The overflow check of `CheckPaymentFeeBalance`, for fees that are not negative. -/
theorem fees_fit {bandwidthFee kAppFee : Int64} (hbw : 0 ≤ bandwidthFee.toInt)
    (hkapp : 0 ≤ kAppFee.toInt)
    (hover : ¬ (0 < bandwidthFee ∧ 9223372036854775807 - bandwidthFee < kAppFee)) :
    bandwidthFee.toInt + kAppFee.toInt < 2 ^ 63 := by
  have hlt := kAppFee.toInt_lt
  rcases Int.lt_or_eq_of_le hbw with hpos | hzero
  · have hmax : (9223372036854775807 : Int64).toInt = 9223372036854775807 := by decide
    have hle : ¬ 9223372036854775807 - bandwidthFee < kAppFee :=
      fun h => hover ⟨pos_iff.2 hpos, h⟩
    have hsub := toInt_sub (by omega : 0 ≤ (9223372036854775807 : Int64).toInt) hbw
    rw [Int64.not_lt, Int64.le_iff_toInt_le] at hle
    omega
  · omega

section
variable (env : Env K PublicKey Cost) {l₀ : Ledger X K P} {addr : Bytes}

/-- A swap that fails has changed nothing, and one that succeeds pays the fees. -/
theorem swap_kept (hpool : HasFeesPool l₀) {sender : Handler (UserData X)} {klvAmount : Int64}
    {info : KDAFee} (hbalance : 0 ≤ sender.fields.balance.toInt)
    (hfits : ∀ app pool, handler l₀.kapps KDAFeesPoolKAppAddress = some app →
      getPool env app info.kda = .ok pool →
      sender.fields.balance.toInt + pool.klvBalance.toInt < 2 ^ 63) :
    Triple (Kept l₀ addr sender) (swap env addr sender klvAmount info)
      (fun h' _ => klvAmount.toInt ≤ h'.fields.balance.toInt) l₀.Alike := by
  refine .bind (getFeesPoolKApp_kept env hpool) fun app => .of_and fun happ => ?_
  refine .lift_bind (fun pool hvalid => ?_) fun _ hk => hk.alike
  obtain ⟨hget, hamount, hfunds⟩ := validate_spec hvalid
  refine .bind (getExistingKapp_kept (by decide)) fun kdaKapp => ?_
  refine .lift_bind (fun _ _ => ?_) fun _ hk => hk.alike
  refine .lift_bind (fun sender1 hsub => ?_) fun _ hk => hk.alike
  -- from here on the cached handler is changed, and nothing may fail
  obtain ⟨hlow, hhigh⟩ := subFromBalance_bounds hbalance hsub
  have hfit := hfits app pool happ hget
  obtain ⟨hadd, hsum⟩ := addToBalance_ok hamount hlow (by omega)
  have hrest : ¬ pool.klvBalance - klvAmount < 0 := by
    have hsub := toInt_sub (by omega : 0 ≤ pool.klvBalance.toInt) hamount
    exact not_neg_iff.2 (by omega)
  refine .bind (Q := fun _ _ => True) (.modify fun _ _ => trivial) fun _ => ?_
  refine .lift_ok_bind (a := ()) (by rw [reject, if_neg hrest]) ?_
  refine .lift_ok_bind hadd ?_
  refine .bind (Q := fun _ _ => True) (.modify fun _ _ => trivial) fun _ => ?_
  have hsaved : ∀ l : Ledger X K P, (l.users.saveUser addr
      (setBalance sender1 (sender1.fields.balance + klvAmount))).2.fields.balance =
      sender1.fields.balance + klvAmount :=
    fun l => congrArg UserData.balance (saveAccount_handler l.users.db addr _).2
  refine .bind (Q := fun (h' : Handler (UserData X)) _ =>
    h'.fields.balance = sender1.fields.balance + klvAmount) (fun l _ => hsaved l) fun sender3 => ?_
  refine .bind (Q := fun _ _ => sender3.fields.balance = sender1.fields.balance + klvAmount)
    (.modify fun _ hfields => hfields) fun _ => ?_
  refine .pure fun _ hfields => ?_
  rw [hfields]
  omega

theorem processBandwidthFee_kept {tx : Tx X K P} (hpool : tx.kdaFee = none ∨ HasFeesPool l₀)
    (hsolvent : Solvent env tx.toTransaction l₀) {owner : Handler (UserData X)}
    (howner : handler l₀.users tx.sender = some owner) (hbw : 0 ≤ tx.bandwidthFee.toInt)
    (hkapp : 0 ≤ tx.kAppFee.toInt) (hfees : tx.bandwidthFee.toInt + tx.kAppFee.toInt < 2 ^ 63) :
    Triple (Kept l₀ tx.sender owner) (processBandwidthFee env tx owner) (fun _ _ => True)
      l₀.Alike := by
  unfold processBandwidthFee
  have hrest : ∀ owner2 : Handler (UserData X), Triple (fun _ => True)
      (do
        let _ ← saveUser tx.sender (increaseNonce owner2)
        Process.modify fun l =>
          { l with fees := l.fees.processTransactionFee tx.bandwidthFee 0 tx.hash }
        Process.modify Ledger.saveAll : Proc X K P Unit) (fun _ _ => True) l₀.Alike :=
    fun owner2 => .bind (Q := fun _ _ => True) (fun _ _ => trivial) fun _ =>
      .bind (Q := fun _ _ => True) (.modify fun _ _ => trivial) fun _ => .modify fun _ _ => trivial
  unfold swapFees
  cases hfee : tx.kdaFee with
  | none =>
    refine .bind (Q := fun h l => Kept l₀ tx.sender owner l ∧ h = owner)
      (.pure fun _ hk => ⟨hk, rfl⟩) fun owner1 => .of_and fun _ => ?_
    exact .lift_bind (fun owner2 _ => fun l _ => hrest owner2 l trivial) fun _ hk => hk.alike
  | some fee =>
    obtain ⟨hbalance, hfits⟩ := hsolvent owner howner
    have hexists : HasFeesPool l₀ := hpool.resolve_left (by rw [hfee]; exact Option.some_ne_none _)
    refine .bind (swap_kept env hexists hbalance fun app pool happ hget =>
      hfits fee app pool hfee happ hget) fun owner1 => ?_
    have htotal := toInt_add_of_lt hbw hkapp hfees
    intro l hfunds
    obtain ⟨owner2, hconsume⟩ := consumeFee_ok env (h := owner1) hbw (by omega)
    exact Triple.lift_ok_bind hconsume (hrest owner2) l trivial

theorem checkPaymentFeeBalance_kept {tx : Transaction} {h owner : Handler (UserData X)}
    (hpool : tx.kdaFee = none ∨ HasFeesPool l₀) :
    Triple (Kept l₀ addr h) (checkPaymentFeeBalance env tx owner : Proc X K P Unit)
      (fun _ l => Kept l₀ addr h l ∧
        ¬ (0 < tx.bandwidthFee ∧ 9223372036854775807 - tx.bandwidthFee < tx.kAppFee)) l₀.Alike := by
  refine .lift_bind (fun _ hover => ?_) fun _ hk => hk.alike
  refine .bind (Q := fun _ => Kept l₀ addr h) ?_
    fun r => .lift (fun _ _ _ hk => ⟨hk, reject_eq_ok.1 hover⟩) fun _ hk => hk.alike
  unfold computeKDAFees
  cases hfee : tx.kdaFee with
  | none => exact .pure fun _ hk => hk
  | some fee =>
    have hexists : HasFeesPool l₀ := hpool.resolve_left (by rw [hfee]; exact Option.some_ne_none _)
    dsimp only
    split
    · refine .bind (getFeesPoolKApp_kept env hexists) fun app => .of_and fun _ => ?_
      exact .lift_bind (fun _ _ => .pure fun _ hk => hk) fun _ hk => hk.alike
    · exact .pure fun _ hk => hk

/-- **A rejected transaction changes nothing that a call can see**, if it has no KDA fee or the fee
pools exist. -/
theorem enterBlock_keeps (hl0 : l₀.Sound) {tx : Tx X K P} (hpool : tx.kdaFee = none ∨ HasFeesPool l₀)
    (hsolvent : Solvent env tx.toTransaction l₀) :
    Triple (· = l₀) (enterBlock env tx) (fun _ _ => True) l₀.Alike := by
  refine .bind (Q := fun r l => Kept l₀ tx.sender r.1 l ∧ 0 ≤ tx.bandwidthFee.toInt ∧
    0 ≤ tx.kAppFee.toInt ∧ tx.bandwidthFee.toInt + tx.kAppFee.toInt < 2 ^ 63) ?_ fun r => ?_
  · refine .bind (getExistingUser_kept hl0 _) fun owner => ?_
    refine .lift_bind (fun cost hauthorized => ?_) fun _ hk => hk.alike
    refine .bind (checkPaymentFeeBalance_kept env hpool) fun _ => .of_and fun hover => ?_
    refine .lift_bind (fun gasLimit _ => .pure fun _ hk => ⟨hk, ?_⟩) fun _ hk => hk.alike
    simp only [checkTxAuthorization, bind_eq_ok] at hauthorized
    obtain ⟨_, _, _, _, _, _, hcost⟩ := hauthorized
    obtain ⟨hbw, hkapp⟩ := env.fees_nonneg _ _ hcost
    rw [nonneg_iff] at hbw hkapp
    exact ⟨hbw, hkapp, fees_fit hbw hkapp hover⟩
  · obtain ⟨owner, gasLimit⟩ := r
    refine .of_and fun hfees => ?_
    obtain ⟨hbw, hkapp, hfees⟩ := hfees
    refine .bind (Q := fun _ => Kept l₀ tx.sender owner) (.attempt ?_ fun _ hk => hk.alike)
      fun _ => ?_
    · intro l u l' hk hg
      obtain ⟨_, -, hrfl⟩ := map_eq_ok.1 hg
      obtain ⟨-, rfl⟩ := Prod.mk.inj hrfl
      exact hk
    intro l hk
    have howner : handler l₀.users tx.sender = some owner :=
      hk.alike.users.handlers ▸ handler_of_lookup hk.lookup
    exact Triple.bind (processBandwidthFee_kept env hpool hsolvent howner hbw hkapp hfees)
      (fun _ => .modify fun _ _ => trivial) l hk

end

/-! ## The lookup of the fee pools -/

/-- The transaction gets as far as `getKApp` of the fee pools: it has a KDA fee and is authorized,
and either `Compute` needs the pool or it passes every check before `Swap`. -/
def LooksUpFeesPool (env : Env K PublicKey Cost) (tx : Tx X K P) (l : Ledger X K P) : Prop :=
  ∃ fee owner cost, tx.kdaFee = some fee ∧ tx.sender ≠ [] ∧
    handler l.users tx.sender = some owner ∧
    checkTxAuthorization env tx.toTransaction owner tx.hash = .ok cost ∧
    ¬ (0 < tx.bandwidthFee ∧ 9223372036854775807 - tx.bandwidthFee < tx.kAppFee) ∧
    ((fee.kda ≠ [] ∧ fee.kda ≠ KLVIdentifier) ∨
      ¬ owner.fields.balance < tx.bandwidthFee + tx.kAppFee ∧
      ∃ gasLimit, env.computeGas tx.toTransaction cost = .ok gasLimit ∧
        ¬ env.maxGasLimitPerBlock < l.gasUsed + gasLimit)

section
variable (env : Env K PublicKey Cost) {l₀ : Ledger X K P}

theorem Kept.handler {l : Ledger X K P} {addr : Bytes} {h : Handler (UserData X)}
    (hk : Kept l₀ addr h l) :
    addr ≠ [] ∧ Processing.handler l₀.users addr = some h := by
  refine ⟨fun hnil => ?_, hk.alike.users.handlers ▸ handler_of_lookup hk.lookup⟩
  obtain ⟨l1, l2, hcache, -⟩ := List.lookup_eq_some_iff.1 hk.lookup
  exact hk.alike.sound'.users.named (addr, h)
    (hcache ▸ List.mem_append_right _ List.mem_cons_self) hnil

/-- The fees of a transaction with a KDA fee whose payment is checked without the pools. -/
theorem checkPaymentFeeBalance_early {tx : Tx X K P} {fee : KDAFee} (hfee : tx.kdaFee = some fee)
    (hlook : ¬ LooksUpFeesPool env tx l₀) {owner : Handler (UserData X)} {cost : Cost}
    (hauthorized : checkTxAuthorization env tx.toTransaction owner tx.hash = .ok cost) :
    Triple (Kept l₀ tx.sender owner) (checkPaymentFeeBalance env tx.toTransaction owner)
      (fun _ l => Kept l₀ tx.sender owner l ∧ ∀ gasLimit,
        env.computeGas tx.toTransaction cost = .ok gasLimit →
        env.maxGasLimitPerBlock < l₀.gasUsed + gasLimit) l₀.Alike := by
  unfold checkPaymentFeeBalance computeKDAFees
  rw [hfee]
  dsimp only
  refine .lift_bind (fun _ hover => ?_) fun _ hk => hk.alike
  rw [reject_eq_ok] at hover
  split
  · rename_i hkda
    intro l hk
    obtain ⟨hnamed, howner⟩ := hk.handler
    exact absurd ⟨fee, owner, cost, hfee, hnamed, howner, hauthorized, hover, .inl hkda⟩ hlook
  refine .bind (Q := fun r l => Kept l₀ tx.sender owner l ∧
    r = (KLVIdentifier, tx.bandwidthFee + tx.kAppFee)) (.pure fun _ hk => ⟨hk, rfl⟩) fun r =>
    .of_and fun hr => ?_
  subst hr
  refine .lift (fun _ l hfunds hk => ⟨hk, fun gasLimit hgas => ?_⟩) fun _ hk => hk.alike
  rw [reject_eq_ok] at hfunds
  obtain ⟨hnamed, howner⟩ := hk.handler
  by_contra hblock
  exact hlook ⟨fee, owner, cost, hfee, hnamed, howner, hauthorized, hover,
    .inr ⟨hfunds, gasLimit, hgas, hblock⟩⟩

/-- A transaction with a KDA fee that is rejected before the lookup. -/
theorem enterBlock_keeps_of_not_looksUp (hl0 : l₀.Sound) {tx : Tx X K P} {fee : KDAFee}
    (hfee : tx.kdaFee = some fee) (hlook : ¬ LooksUpFeesPool env tx l₀) :
    Triple (· = l₀) (enterBlock env tx) (fun _ _ => True) l₀.Alike := by
  refine .bind (Q := fun r l => l₀.Alike l ∧ env.maxGasLimitPerBlock < l₀.gasUsed + r.2) ?_
    fun r => .of_and fun hgas => ?_
  · refine .bind (getExistingUser_kept hl0 _) fun owner => ?_
    refine .lift_bind (fun cost hauthorized => ?_) fun _ hk => hk.alike
    refine .bind (checkPaymentFeeBalance_early env hfee hlook hauthorized) fun _ =>
      .of_and fun hblock => ?_
    exact .lift_bind (fun gasLimit hgas => .pure fun _ hk => ⟨hk.alike, hblock gasLimit hgas⟩)
      fun _ hk => hk.alike
  · intro l hl
    have hfull : env.maxGasLimitPerBlock < l.gasUsed + r.2 := hl.gasUsed ▸ hgas
    change Ends _ _ (andThen (attempt _) _ l)
    simp only [andThen, attempt, reject, if_pos hfull]
    exact hl

/-- The account of the fee pools that `LoadKApp` created is in the cache. -/
def Created (l : Ledger X K P) : Prop :=
  handler l.kapps KDAFeesPoolKAppAddress = some ⟨env.newFeesPoolKApp, none, []⟩

theorem getExistingUser_found (hl0 : l₀.Sound) {addr : Bytes} {h : Handler (UserData X)}
    (ha : addr ≠ []) (hh : handler l₀.users addr = some h) (E : Ledger X K P → Prop) :
    Triple (· = l₀) (getExistingUser addr) (fun h' l => Kept l₀ addr h' l ∧ h' = h) E := by
  rintro l rfl
  have hkept := getExistingUser_kept hl0 addr l rfl
  obtain ⟨k, hget, -⟩ := getExisting_of_some ha hh
  unfold getExistingUser attempt at hkept ⊢
  dsimp only at hkept ⊢
  rw [hget] at hkept ⊢
  exact ⟨hkept, rfl⟩

theorem getFeesPoolKApp_creates (hpool : ¬ HasFeesPool l₀) {addr : Bytes}
    {h : Handler (UserData X)} :
    Triple (Kept l₀ addr h) (getFeesPoolKApp env : Proc X K P (Handler K))
      (fun app l => Created env l ∧ app = ⟨env.newFeesPoolKApp, none, []⟩) (Created env) := by
  intro l hk
  have hnone : handler l.kapps KDAFeesPoolKAppAddress = none := by
    rw [← hk.alike.kapps.handlers]
    exact Option.not_isSome_iff_eq_none.1 hpool
  obtain ⟨hload, hhandler⟩ := load_of_none env.newFeesPoolKApp (by decide) hnone
  unfold getFeesPoolKApp loadKApp attempt
  dsimp only
  rw [hload]
  refine ⟨?_, rfl⟩
  change handler (l.kapps.handOut _ _) _ = _
  rw [hhandler, Function.update_self]

theorem compute_new (klvFee : Int64) (info : KDAFee) :
    compute env ⟨env.newFeesPoolKApp, none, []⟩ klvFee info = .error .ErrAssetPoolNotFound :=
  rfl

theorem validate_new (klvFee : Int64) (info : KDAFee) :
    ∃ e, validate env ⟨env.newFeesPoolKApp, none, []⟩ klvFee info = .error e := by
  unfold validate
  rw [compute_new]
  by_cases hneg : klvFee < 0
  · exact ⟨.ErrAssetPoolInvalidAmount, by simp only [reject, if_pos hneg]; rfl⟩
  · exact ⟨.ErrAssetPoolNotFound, by simp only [reject, if_neg hneg]; rfl⟩

/-- A transaction that looks up the fee pools before any exists is rejected, and leaves the
account that `LoadKApp` created in the cache. -/
theorem enterBlock_creates (hl0 : l₀.Sound) {tx : Tx X K P} (hlook : LooksUpFeesPool env tx l₀)
    (hpool : ¬ HasFeesPool l₀) :
    Triple (· = l₀) (enterBlock env tx) (fun _ _ => False) (Created env) := by
  obtain ⟨fee, owner, cost, hfee, hnamed, howner, hauthorized, hover, hreach⟩ := hlook
  unfold enterBlock preProcessTransaction checkPaymentFeeBalance computeKDAFees
  rw [hfee]
  dsimp only
  by_cases hkda : fee.kda ≠ [] ∧ fee.kda ≠ KLVIdentifier
  · refine .bind (Q := fun _ _ => False) ?_ fun _ _ hfalse => hfalse.elim
    refine .bind (getExistingUser_found hl0 hnamed howner _) fun owner' => .of_and fun hrfl => ?_
    subst hrfl
    refine .lift_ok_bind hauthorized ?_
    refine .bind (Q := fun _ _ => False) ?_ fun _ _ hfalse => hfalse.elim
    refine .lift_ok_bind (a := ()) (by rw [reject, if_neg hover]) ?_
    rw [if_pos hkda]
    refine .bind (Q := fun _ _ => False) ?_ fun _ _ hfalse => hfalse.elim
    refine .bind (getFeesPoolKApp_creates env hpool) fun app => .of_and fun happ => ?_
    subst happ
    exact .lift_bind (fun _ hok => by cases hok) fun _ h => h
  · obtain ⟨hfunds, gasLimit, hgas, hblock⟩ := hreach.resolve_left hkda
    refine .bind (Q := fun r l => Kept l₀ tx.sender owner l ∧ r = (owner, gasLimit)) ?_ fun r =>
      .of_and fun hr => ?_
    · refine .bind (getExistingUser_found hl0 hnamed howner _) fun owner' => .of_and fun hrfl => ?_
      subst hrfl
      refine .lift_ok_bind hauthorized ?_
      refine .bind (Q := fun _ => Kept l₀ tx.sender owner') ?_ fun _ =>
        .lift_ok_bind hgas (.pure fun _ hk => ⟨hk, rfl⟩)
      refine .lift_ok_bind (a := ()) (by rw [reject, if_neg hover]) ?_
      rw [if_neg hkda]
      refine .bind (Q := fun r l => Kept l₀ tx.sender owner' l ∧
        r = (KLVIdentifier, tx.bandwidthFee + tx.kAppFee)) (.pure fun _ hk => ⟨hk, rfl⟩) fun r =>
        .of_and fun hr => ?_
      subst hr
      exact fun l hk => by
        have hpaid : ¬ getBalance env.marshalizer owner' KLVIdentifier <
          tx.bandwidthFee + tx.kAppFee := hfunds
        simp only [lift, reject, if_neg hpaid]
        exact hk
    · subst hr
      refine .bind (Q := fun _ => Kept l₀ tx.sender owner) (fun l hk => ?_) fun _ => ?_
      · have hroom : ¬ env.maxGasLimitPerBlock < l.gasUsed + gasLimit := hk.alike.gasUsed ▸ hblock
        simp only [attempt, reject, if_neg hroom]
        exact hk
      refine .bind (Q := fun _ _ => False) ?_ fun _ _ hfalse => hfalse.elim
      unfold processBandwidthFee swapFees swap
      rw [hfee]
      refine .bind (Q := fun _ _ => False) ?_ fun _ _ hfalse => hfalse.elim
      refine .bind (getFeesPoolKApp_creates env hpool) fun app => .of_and fun happ => ?_
      subst happ
      obtain ⟨e, herror⟩ := validate_new env (tx.bandwidthFee + tx.kAppFee) fee
      exact .lift_bind (fun _ hok => by cases herror.symm.trans hok) fun _ h => h

end

/-! ## Rejected transactions leave nothing -/

def stores (l : Ledger X K P) : (Bytes → Option (Stored (UserData X))) × (Bytes → Option (Stored K)) ×
    (Bytes → Option (Stored P)) :=
  (accounts l.users, accounts l.kapps, accounts l.peers)

theorem Ledger.Alike.stores {l l' : Ledger X K P} (h : l.Alike l') :
    Processing.stores l = Processing.stores l' := by
  unfold Processing.stores
  rw [h.users.accounts, h.kapps.accounts, h.peers.accounts]

section
variable {env : Env K PublicKey Cost} {l l' : Ledger X K P} {tx : Tx X K P} {e : Err}

/-- **A rejected transaction leaves nothing, but for one that looks up the fee pools before any of
them exists.**  Exactly then it leaves a handler in the cache that is not that of a stored account.
Otherwise all further transactions give the stores that they give without it. -/
theorem rejected_leaves_nothing_iff (hl : l.Sound) (hsolvent : Solvent env tx.toTransaction l)
    (hrejected : enterBlock env tx l = (.error e, l')) :
    (l.Alike l' ↔ HasFeesPool l ∨ ¬ LooksUpFeesPool env tx l) ∧
    (HasFeesPool l ∨ ¬ LooksUpFeesPool env tx l → ∀ txs,
      stores (processTransactions env l (tx :: txs)) = stores (processTransactions env l txs)) := by
  have hkeeps : HasFeesPool l ∨ ¬ LooksUpFeesPool env tx l → l.Alike l' := by
    intro hcond
    have hends : Triple (· = l) (enterBlock env tx) (fun _ _ => True) l.Alike := by
      cases hfee : tx.kdaFee with
      | none => exact enterBlock_keeps env hl (.inl hfee) hsolvent
      | some fee =>
        rcases hcond with hpool | hlook
        · exact enterBlock_keeps env hl (.inr hpool) hsolvent
        · exact enterBlock_keeps_of_not_looksUp env hl hfee hlook
    have h := hends l rfl
    rw [hrejected] at h
    exact h
  refine ⟨⟨fun halike => ?_, hkeeps⟩, fun hcond txs => ?_⟩
  · by_contra hcond
    rw [not_or, not_not] at hcond
    have h := enterBlock_creates env hl hcond.2 hcond.1 l rfl
    rw [hrejected] at h
    refine hcond.1 ?_
    unfold HasFeesPool
    rw [halike.kapps.handlers, show handler l'.kapps _ = _ from h]
    rfl
  · have hprocess : (processAndRemoveBadTransaction env tx l).2 = l' := by
      change (andThen (enterBlock env tx) (fun _ => processOrRevert env tx) l).2 = l'
      simp only [andThen, hrejected]
    change stores (processTransactions env (processAndRemoveBadTransaction env tx l).2 txs) = _
    rw [hprocess]
    exact (processTransactions_alike env (hkeeps hcond) txs).stores.symm

end

/-- A transaction without contracts of the user `[1]`. -/
def acceptedTx : Tx Unit Unit Unit := { sampleTx with contracts := [] }

/-- The same with its fees paid in the asset `[75]`. -/
def rejectedTx : Tx Unit Unit Unit := { acceptedTx with kdaFee := some ⟨[75], 20⟩ }

/-- Every stored pool is at par and has 12 KLV, and every stored balance is 100. -/
def poolEnv : Env Unit Unit Unit :=
  { sampleEnv with marshalizer := { sampleMarshalizer with
      toUserKDA := fun _ => .ok { UserKDA.fresh with balance := 100 }
      toFeesPool := fun _ => some ⟨[1], [75], true, [1], 1, 1, 0, 12⟩ } }

/-- The user `[1]` with 100 KLV and a balance of every asset, which has a fee pool. -/
def poolLedger : Ledger Unit Unit Unit :=
  { sampleLedger with
    users := committedSide fun a =>
      if a = [1] then some ⟨⟨100, 0, [], ()⟩, some fun _ => [1]⟩ else none
    kapps := committedSide fun a =>
      if a = KDAFeesPoolKAppAddress then some ⟨(), some fun _ => [1]⟩ else none }

/-- The pool has too little KLV for the fees of 15. -/
theorem rejected_leaves_nothing_iff_sample :
    (enterBlock poolEnv rejectedTx poolLedger).1 = .error .ErrAssetPoolOutOfFunds ∧
    stores (processTransactions poolEnv poolLedger [rejectedTx, acceptedTx]) =
      stores (processTransactions poolEnv poolLedger [acceptedTx]) := by
  have hl : poolLedger.Sound :=
    ⟨committedSide_sound _, committedSide_sound _, committedSide_sound _⟩
  have hsolvent : Solvent poolEnv rejectedTx.toTransaction poolLedger := by
    intro owner howner
    cases (Option.some.inj howner : _ = owner)
    refine ⟨by decide, fun fee app pool hfee happ hpool => ?_⟩
    cases (Option.some.inj hfee : _ = fee)
    cases (Option.some.inj happ : _ = app)
    cases (Except.ok.inj hpool : _ = pool)
    decide
  exact ⟨rfl, (rejected_leaves_nothing_iff hl hsolvent rfl).2 (.inl rfl) [acceptedTx]⟩

/-- The proposer, which saw both transactions, stores an account that a validator, which saw only
the accepted one, does not store. -/
theorem rejected_creates_feesPool :
    (enterBlock sampleEnv rejectedTx sampleLedger).1 = .error .ErrComputeKDAFeeError ∧
    ((stores (processTransactions sampleEnv sampleLedger [rejectedTx, acceptedTx])).2.1
      KDAFeesPoolKAppAddress).isSome = true ∧
    ((stores (processTransactions sampleEnv sampleLedger [acceptedTx])).2.1
      KDAFeesPoolKAppAddress).isSome = false :=
  ⟨rfl, rfl, rfl⟩

end KleverGo.Processing
