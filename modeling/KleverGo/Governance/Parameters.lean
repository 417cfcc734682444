import KleverGo.State.Proposals

/-!
# Network parameters

`kapps/proposal.go` and `kapps/proposalParser.go`: the parameters and their initial values, the
parsers of their values (`strconv.ParseInt`, `strconv.ParseUint`) and the bounds a proposal has
to keep.

* `Acceptable`: a value that parses and lies within the bounds of its parameter, which is what
  `ParseParamAndValidate` asks for from `FixAuditChangesV6` on (`parseParamAndValidate_iff`).
* `initialProposalParameters_acceptable`: the initial value of every parameter is acceptable.
* `lookup_mergedParameters`: the stored values win over the initial ones.
-/

namespace KleverGo

/-- `kapps.EnumParameter`; the code of a parameter is its place in the list. -/
inductive EnumParameter where
  | FeePerDataByte | KAppFeeCreateValidator | KAppFeeCreateAsset | MaxEpochsUnclaimed
  | MinSelfDelegatedAmount | MinTotalDelegatedAmount | BlockRewards | StakingRewards
  | KAppFeeTransfer | KAppFeeAssetTrigger | KAppFeeValidatorConfig | KAppFeeFreeze
  | KAppFeeUnfreeze | KAppFeeDelegate | KAppFeeUndelegate | KAppFeeWithdraw | KAppFeeClaim
  | KAppFeeUnjail | KAppFeeSetAccountName | KAppFeeProposal | KAppFeeVote | KAppFeeConfigITO
  | KAppFeeSetITOPrices | KAppFeeBuy | KAppFeeSell | KAppFeeCancelMarketOrder
  | KAppFeeCreateMarketplace | KAppFeeConfigMarketplace | KAppFeeUpdateAccountPermission
  | MaxNFTMintBatch | MinKFIStakedToEnableProposals | MinKLVBucketAmount | MaxBucketSize
  | LeaderValidatorRewardsPercentage | ProposalMaxEpochsDuration | KAppFeeITOTrigger
  | KAppFeeDeposit | KAppFeeSmartContract | GasMultiplier | MaxGasPerBlock | MaxGasPerTX
  deriving DecidableEq, Repr

namespace EnumParameter

/-- The parameters in the order of their codes. -/
def all : List EnumParameter :=
  [FeePerDataByte, KAppFeeCreateValidator, KAppFeeCreateAsset, MaxEpochsUnclaimed,
   MinSelfDelegatedAmount, MinTotalDelegatedAmount, BlockRewards, StakingRewards, KAppFeeTransfer,
   KAppFeeAssetTrigger, KAppFeeValidatorConfig, KAppFeeFreeze, KAppFeeUnfreeze, KAppFeeDelegate,
   KAppFeeUndelegate, KAppFeeWithdraw, KAppFeeClaim, KAppFeeUnjail, KAppFeeSetAccountName,
   KAppFeeProposal, KAppFeeVote, KAppFeeConfigITO, KAppFeeSetITOPrices, KAppFeeBuy, KAppFeeSell,
   KAppFeeCancelMarketOrder, KAppFeeCreateMarketplace, KAppFeeConfigMarketplace,
   KAppFeeUpdateAccountPermission, MaxNFTMintBatch, MinKFIStakedToEnableProposals,
   MinKLVBucketAmount, MaxBucketSize, LeaderValidatorRewardsPercentage, ProposalMaxEpochsDuration,
   KAppFeeITOTrigger, KAppFeeDeposit, KAppFeeSmartContract, GasMultiplier, MaxGasPerBlock,
   MaxGasPerTX]

/-- `int32(parameter)` -/
def code (p : EnumParameter) : Int32 := Int32.ofNat (all.idxOf p)

/-- The parameter `EnumParameter_name` has a name for. -/
def ofCode (c : Int32) : Option EnumParameter := all.find? fun p => p.code = c

end EnumParameter

/-! ## Values -/

/-- The decimal text of a number. -/
def decimal (n : Nat) : Bytes := (Nat.toDigits 10 n).map fun c => UInt8.ofNat c.toNat

/-- The loop of `strconv.ParseUint`, from the value of the digits read so far. -/
def parseDigits (maxVal : Nat) : Nat → Bytes → Except Err Nat
  | n, [] => .ok n
  | n, c :: rest => do
    reject (c < 48 ∨ 57 < c) .ErrSyntax
    let n := n * 10 + (c.toNat - 48)
    reject (maxVal < n) .ErrRange
    parseDigits maxVal n rest

/-- `strconv.ParseUint(value, 10, bits)` -/
def parseUint (bits : Nat) (value : Bytes) : Except Err Nat := do
  reject (value = []) .ErrSyntax
  parseDigits (2 ^ bits - 1) 0 value

/-- The sign of the text of a number, and what follows it: `+` is 43, `-` is 45. -/
def splitSign : Bytes → Bool × Bytes
  | 43 :: rest => (false, rest)
  | 45 :: rest => (true, rest)
  | value => (false, value)

/-- `strconv.ParseInt(value, 10, bits)` -/
def parseInt (bits : Nat) (value : Bytes) : Except Err Int := do
  reject (value = []) .ErrSyntax
  let (negative, digits) := splitSign value
  let n ← parseUint bits digits
  reject (¬ negative ∧ 2 ^ (bits - 1) ≤ n) .ErrRange
  reject (negative ∧ 2 ^ (bits - 1) < n) .ErrRange
  pure (if negative then -(n : Int) else n)

/-- The value a parser returns: its `reflect.Kind` is that of `int64` or of `uint64`. -/
inductive ParameterValue where
  | int (v : Int)
  | uint (v : Nat)
  deriving DecidableEq, Repr

/-- `parsers[type]` -/
def parsers (type : EnumType) (value : Bytes) : Except Err ParameterValue :=
  match type with
  | .Int8 => .int <$> parseInt 8 value
  | .Int16 => .int <$> parseInt 16 value
  | .Int32 => .int <$> parseInt 32 value
  | .Int64 => .int <$> parseInt 64 value
  | .Uint8 => .uint <$> parseUint 8 value
  | .Uint16 => .uint <$> parseUint 16 value
  | .Uint32 => .uint <$> parseUint 32 value
  | .Uint64 => .uint <$> parseUint 64 value

/-! ## Bounds -/

def MaxGasLimitPerTx : Int := 500000000

def MinGasLimit : Int := 50000

def MaxKappIterator : Int := 1000

def MaxGasBandwidthPerBatchPerSender : Int := 50000000

def maxGasPerBlock : Int := MaxGasLimitPerTx * MaxKappIterator
def maxGasMultiplier : Int := 10000
def maxProposalEpochsDuration : Int := 1000
def maxEmissionPerBlock : Int := 1000000000
def maxKAppFee : Int := 1000000000000
def maxFeePerDataByte : Int := 4000000
def maxKLVSupply : Int := 10000000000000000
def maxKFISupply : Int := 21000000000000

structure ParamLimits where
  min : Int
  max : Int

def kappFeeLimits : ParamLimits := ⟨0, maxKAppFee⟩
def emissionLimits : ParamLimits := ⟨0, maxEmissionPerBlock⟩
def klvStakeLimits : ParamLimits := ⟨1, maxKLVSupply⟩
def iterationLimits : ParamLimits := ⟨1, MaxKappIterator⟩

/-- `paramBounds`; every parameter has a row. -/
def paramBounds : EnumParameter → ParamLimits
  | .FeePerDataByte => ⟨0, maxFeePerDataByte⟩
  | .KAppFeeCreateValidator | .KAppFeeCreateAsset | .KAppFeeTransfer | .KAppFeeAssetTrigger
  | .KAppFeeValidatorConfig | .KAppFeeFreeze | .KAppFeeUnfreeze | .KAppFeeDelegate
  | .KAppFeeUndelegate | .KAppFeeWithdraw | .KAppFeeClaim | .KAppFeeUnjail
  | .KAppFeeSetAccountName | .KAppFeeProposal | .KAppFeeVote | .KAppFeeConfigITO
  | .KAppFeeSetITOPrices | .KAppFeeBuy | .KAppFeeSell | .KAppFeeCancelMarketOrder
  | .KAppFeeCreateMarketplace | .KAppFeeConfigMarketplace | .KAppFeeUpdateAccountPermission
  | .KAppFeeITOTrigger | .KAppFeeDeposit | .KAppFeeSmartContract => kappFeeLimits
  | .BlockRewards | .StakingRewards => emissionLimits
  | .MinSelfDelegatedAmount | .MinTotalDelegatedAmount | .MinKLVBucketAmount => klvStakeLimits
  | .MinKFIStakedToEnableProposals => ⟨1, maxKFISupply⟩
  | .MaxEpochsUnclaimed | .MaxNFTMintBatch | .MaxBucketSize => iterationLimits
  | .ProposalMaxEpochsDuration => ⟨1, maxProposalEpochsDuration⟩
  | .LeaderValidatorRewardsPercentage => ⟨0, HundredPercent.toNat⟩
  | .GasMultiplier => ⟨1, maxGasMultiplier⟩
  | .MaxGasPerBlock => ⟨MaxGasLimitPerTx, maxGasPerBlock⟩
  | .MaxGasPerTX => ⟨MinGasLimit, MaxGasLimitPerTx⟩

/-- The `int64` a value is compared as; an unsigned one is converted and may wrap. -/
def ParameterValue.toI64 : ParameterValue → Int
  | .int v => v
  | .uint v => (Int64.ofNat v).toInt

def validateBounds (parameter : Int32) (value : ParameterValue) : Except Err Unit := do
  let p ← orError (EnumParameter.ofCode parameter) .ErrInvalidParameter
  reject (value.toI64 < (paramBounds p).min ∨ (paramBounds p).max < value.toI64)
    .ErrInvalidParameter

variable (fc : ForkController)

/-- The checks of `validateConstraints` before `FixAuditChangesV6`. -/
def validateConstraintsLegacy (parameter : Int32) (value : ParameterValue) : Except Err Unit :=
  match EnumParameter.ofCode parameter with
  | some .LeaderValidatorRewardsPercentage =>
    reject (HundredPercent.toNat < value.toI64) .ErrInvalidParameter
  | some .GasMultiplier => reject (value.toI64 < 1) .ErrInvalidParameter
  | some .MaxGasPerBlock => reject (value.toI64 < MinGasLimit) .ErrInvalidParameter
  | some .MaxGasPerTX =>
    let maxValue :=
      if fc.fixAuditChanges then MaxGasLimitPerTx else MaxGasBandwidthPerBatchPerSender
    reject (value.toI64 < MinGasLimit ∨ maxValue < value.toI64) .ErrInvalidParameter
  | _ => .ok ()

def validateConstraints (parameter : Int32) (value : ParameterValue) : Except Err Unit :=
  if fc.fixAuditChangesV6 then validateBounds parameter value
  else validateConstraintsLegacy fc parameter value

/-! ## Parameter sets -/

namespace Parameters

variable (params : Parameters)

def parseParam (parameter : Int32) (value : Bytes) : Except Err ParameterValue := do
  let param ← orError (params.lookup parameter) .ErrInvalidParameter
  parsers param.type value

def parseParamAndValidate (fc : ForkController) (parameter : Int32) (value : Bytes) :
    Except Err Unit := do
  let result ← params.parseParam parameter value
  validateConstraints fc parameter result

/-- `ProposalController.GetParameterInt`: zero if the parameter is missing or does not parse.
(`reflect` panics on an unsigned one; no caller asks for one.) -/
def getParameterInt (parameter : EnumParameter) : Int64 :=
  match params.lookup parameter.code with
  | none => 0
  | some param =>
    match params.parseParam parameter.code param.value with
    | .ok (.int v) => Int64.ofInt v
    | _ => 0

def getParameterUint (parameter : EnumParameter) : UInt64 :=
  match params.lookup parameter.code with
  | none => 0
  | some param =>
    match params.parseParam parameter.code param.value with
    | .ok (.int v) => (Int64.ofInt v).toUInt64
    | .ok (.uint v) => UInt64.ofNat v
    | .error _ => 0

/-- `activeProposalController.UpdateParameters`: every given parameter replaces the live one. -/
def updateParameters (live given : Parameters) : Parameters :=
  given.entries.foldl (fun params e => params.insert e.1 e.2) live

end Parameters

/-! ## Initial values -/

/-- A parameter of `InitialProposalParameters`. -/
def initialParameter (type : EnumType) (value : Nat) : Parameter := ⟨type, decimal value⟩

/-- The parameters of every fork: name, type and initial value. -/
def baseParameters : List (EnumParameter × EnumType × Nat) :=
  [(.FeePerDataByte, .Int64, 4000),
   (.KAppFeeCreateAsset, .Int64, 20000000000),
   (.KAppFeeCreateValidator, .Int64, 50000000000),
   (.KAppFeeTransfer, .Int64, 500000),
   (.KAppFeeAssetTrigger, .Int64, 2000000),
   (.KAppFeeValidatorConfig, .Int64, 1000000000),
   (.KAppFeeFreeze, .Int64, 1000000),
   (.KAppFeeUnfreeze, .Int64, 1000000),
   (.KAppFeeDelegate, .Int64, 1000000),
   (.KAppFeeUndelegate, .Int64, 1000000),
   (.KAppFeeWithdraw, .Int64, 1000000),
   (.KAppFeeClaim, .Int64, 1000000),
   (.KAppFeeUnjail, .Int64, 10000000000),
   (.KAppFeeSetAccountName, .Int64, 100000000),
   (.KAppFeeProposal, .Int64, 500000000),
   (.KAppFeeVote, .Int64, 1000000),
   (.KAppFeeConfigITO, .Int64, 20000000000),
   (.KAppFeeSetITOPrices, .Int64, 1000000),
   (.KAppFeeBuy, .Int64, 1000000),
   (.KAppFeeSell, .Int64, 10000000),
   (.KAppFeeCancelMarketOrder, .Int64, 50000000),
   (.KAppFeeCreateMarketplace, .Int64, 50000000000),
   (.KAppFeeConfigMarketplace, .Int64, 1000000000),
   (.KAppFeeUpdateAccountPermission, .Int64, 1000000000),
   (.MaxEpochsUnclaimed, .Int64, 100),
   (.MinSelfDelegatedAmount, .Int64, 1500000000000),
   (.MinTotalDelegatedAmount, .Int64, 10000000000000),
   (.BlockRewards, .Int64, 0),
   (.StakingRewards, .Int64, 0),
   (.MaxNFTMintBatch, .Int64, 50),
   (.MinKFIStakedToEnableProposals, .Int64, 1000000000000),
   (.MinKLVBucketAmount, .Int64, 1000000000),
   (.MaxBucketSize, .Int64, 100),
   (.LeaderValidatorRewardsPercentage, .Uint32, 6000),
   (.ProposalMaxEpochsDuration, .Uint32, 40)]

def kdaFprParameters : List (EnumParameter × EnumType × Nat) :=
  [(.KAppFeeITOTrigger, .Int64, 2000000), (.KAppFeeDeposit, .Int64, 10000000)]

def smartContractParameters : List (EnumParameter × EnumType × Nat) :=
  [(.KAppFeeSmartContract, .Int64, 2000000), (.GasMultiplier, .Int64, 10),
   (.MaxGasPerBlock, .Int64, 1500000000), (.MaxGasPerTX, .Int64, 100000000)]

def auditParameters : List (EnumParameter × EnumType × Nat) :=
  [(.MaxGasPerTX, .Int64, 400000000), (.GasMultiplier, .Int64, 1)]

/-- `InitialProposalParameters`: the rows the active forks add, a later one replacing an earlier
one. -/
def initialRows : List (EnumParameter × EnumType × Nat) :=
  baseParameters ++ (if fc.kdaFpr then kdaFprParameters else []) ++
    (if fc.enableSmartContracts then smartContractParameters else []) ++
    (if fc.fixAuditChanges then auditParameters else [])

def initialProposalParameters : Parameters :=
  (initialRows fc).foldl (fun params row =>
    params.insert row.1.code (initialParameter row.2.1 row.2.2)) ∅

/-- The parameters of `mergeInitialParameters`: the stored ones, and the initial value of every
parameter that the stored set lacks. -/
def mergedParameters (stored : Parameters) : Parameters :=
  (initialProposalParameters fc).updateParameters stored

/-- `mergeInitialParameters`, with whether it changed anything. -/
def mergeInitialParameters (pc : ProposalController) : ProposalController × Bool :=
  if (initialProposalParameters fc).entries.length ≤ pc.activeParameters.entries.length then
    (pc, false)
  else ({ pc with activeParameters := mergedParameters fc pc.activeParameters }, true)

/-! ## What the checks say -/

/-- A value that parses and lies within the bounds of its parameter. -/
def Acceptable (params : Parameters) (parameter : Int32) (value : Bytes) : Prop :=
  ∃ param name v, params.lookup parameter = some param ∧
    EnumParameter.ofCode parameter = some name ∧ parsers param.type value = .ok v ∧
    (paramBounds name).min ≤ v.toI64 ∧ v.toI64 ≤ (paramBounds name).max

variable {fc : ForkController}

theorem Parameters.parseParamAndValidate_iff {params : Parameters} {parameter : Int32}
    {value : Bytes} {u : Unit} (hfork : fc.fixAuditChangesV6 = true) :
    params.parseParamAndValidate fc parameter value = .ok u ↔ Acceptable params parameter value := by
  simp only [Parameters.parseParamAndValidate, Parameters.parseParam, validateConstraints, hfork,
    if_true, validateBounds, bind_eq_ok, orError_eq_ok, reject_eq_ok, not_or, Int.not_lt]
  constructor
  · rintro ⟨v, ⟨param, hparam, hv⟩, name, hname, hmin, hmax⟩
    exact ⟨param, name, v, hparam, hname, hv, hmin, hmax⟩
  · rintro ⟨param, name, v, hparam, hname, hv, hmin, hmax⟩
    exact ⟨v, ⟨param, hparam, hv⟩, name, hname, hmin, hmax⟩

theorem parseDigits_known (maxVal : Nat) (l : Bytes) (n : Nat) :
    parseDigits maxVal n l ≠ .error .ErrInvalidParameter := by
  induction l generalizing n with
  | nil => simp [parseDigits]
  | cons c rest ih =>
    intro h
    simp only [parseDigits, bind_eq_error, reject_eq_error] at h
    rcases h with ⟨-, h⟩ | ⟨_, -, ⟨-, h⟩ | ⟨_, -, h⟩⟩
    · cases h
    · cases h
    · exact ih _ h

theorem parseUint_known (bits : Nat) (value : Bytes) :
    parseUint bits value ≠ .error .ErrInvalidParameter := by
  intro h
  simp only [parseUint, bind_eq_error, reject_eq_error] at h
  rcases h with ⟨-, h⟩ | ⟨_, -, h⟩
  · cases h
  · exact parseDigits_known _ _ _ h

theorem parseInt_known (bits : Nat) (value : Bytes) :
    parseInt bits value ≠ .error .ErrInvalidParameter := by
  intro h
  simp only [parseInt, bind_eq_error, reject_eq_error, pure_ne_error, and_false,
    exists_false, or_false] at h
  rcases h with ⟨-, h⟩ | ⟨_, -, h | ⟨_, -, ⟨-, h⟩ | ⟨_, -, -, h⟩⟩⟩
  · cases h
  · exact parseUint_known _ _ h
  · cases h
  · cases h

theorem parsers_known (type : EnumType) (value : Bytes) :
    parsers type value ≠ .error .ErrInvalidParameter := by
  have hmap : ∀ {α : Type} (f : α → ParameterValue) (x : Except Err α),
      x ≠ .error .ErrInvalidParameter → f <$> x ≠ .error .ErrInvalidParameter := by
    intro α f x hx
    cases x with
    | ok a => simp [Functor.map, Except.map]
    | error e =>
      simp only [Functor.map, Except.map, ne_eq, Except.error.injEq] at hx ⊢
      exact hx
  cases type
  case Int8 | Int16 | Int32 | Int64 => exact hmap _ _ (parseInt_known _ _)
  case Uint8 | Uint16 | Uint32 | Uint64 => exact hmap _ _ (parseUint_known _ _)

/-- A row that sets its parameter to an acceptable value. -/
def rowAcceptable (row : EnumParameter × EnumType × Nat) : Bool :=
  match parsers row.2.1 (decimal row.2.2) with
  | .ok v => decide (EnumParameter.ofCode row.1.code = some row.1 ∧
      (paramBounds row.1).min ≤ v.toI64 ∧ v.toI64 ≤ (paramBounds row.1).max)
  | .error _ => false

theorem rows_acceptable : ∀ row ∈ baseParameters ++ kdaFprParameters ++ smartContractParameters ++
    auditParameters, rowAcceptable row = true := by decide +kernel

theorem mem_initialRows {row : EnumParameter × EnumType × Nat} (h : row ∈ initialRows fc) :
    row ∈ baseParameters ++ kdaFprParameters ++ smartContractParameters ++ auditParameters := by
  simp only [initialRows, List.mem_append] at h ⊢
  rcases h with ((h | h) | h) | h
  · exact .inl (.inl (.inl h))
  all_goals
    split at h
    · simp [h]
    · cases h

variable {c : Int32} {q : Parameter}

theorem initialProposalParameters_row (h : (initialProposalParameters fc).lookup c = some q) :
    ∃ row ∈ initialRows fc, c = row.1.code ∧ q = initialParameter row.2.1 row.2.2 := by
  have hfold : ∀ (rows : List (EnumParameter × EnumType × Nat)) (m : Parameters),
      (rows.foldl (fun params row =>
        params.insert row.1.code (initialParameter row.2.1 row.2.2)) m).lookup c = some q →
      m.lookup c = some q ∨
        ∃ row ∈ rows, c = row.1.code ∧ q = initialParameter row.2.1 row.2.2 := by
    intro rows
    induction rows with
    | nil => exact fun m h => .inl h
    | cons row rest ih =>
      intro m h
      rcases ih _ h with h | ⟨row', hrow', heq⟩
      · rw [FMap.lookup_insert_eq] at h
        split at h
        · rename_i hc
          cases h
          exact .inr ⟨row, List.mem_cons_self, hc, rfl⟩
        · exact .inl h
      · exact .inr ⟨row', List.mem_cons_of_mem _ hrow', heq⟩
  rcases hfold _ _ h with h | h
  · cases h
  · exact h

theorem initialProposalParameters_ne_none :
    (initialProposalParameters fc).lookup c ≠ none ↔ ∃ row ∈ initialRows fc, c = row.1.code := by
  have hfold : ∀ (rows : List (EnumParameter × EnumType × Nat)) (m : Parameters),
      (m.lookup c ≠ none ∨ ∃ row ∈ rows, c = row.1.code) →
      (rows.foldl (fun params row =>
        params.insert row.1.code (initialParameter row.2.1 row.2.2)) m).lookup c ≠ none := by
    intro rows
    induction rows with
    | nil =>
      rintro m (h | ⟨row, hrow, -⟩)
      · exact h
      · cases hrow
    | cons row rest ih =>
      intro m h
      refine ih _ ?_
      by_cases hc : c = row.1.code
      · exact .inl (by rw [FMap.lookup_insert_eq, if_pos hc]; exact Option.some_ne_none _)
      rcases h with h | ⟨row', hrow', heq⟩
      · exact .inl (by rw [FMap.lookup_insert_eq, if_neg hc]; exact h)
      · rcases List.mem_cons.1 hrow' with rfl | hrow'
        · exact absurd heq hc
        · exact .inr ⟨row', hrow', heq⟩
  constructor
  · intro h
    obtain ⟨q, hq⟩ := Option.ne_none_iff_exists'.1 h
    obtain ⟨row, hrow, hc, -⟩ := initialProposalParameters_row hq
    exact ⟨row, hrow, hc⟩
  · exact fun h => hfold _ _ (.inr h)

/-- **The initial value of every parameter is acceptable.** -/
theorem initialProposalParameters_acceptable
    (h : (initialProposalParameters fc).lookup c = some q) :
    Acceptable (initialProposalParameters fc) c q.value := by
  obtain ⟨row, hrow, rfl, rfl⟩ := initialProposalParameters_row h
  have hrow := rows_acceptable row (mem_initialRows hrow)
  unfold rowAcceptable at hrow
  split at hrow
  · rename_i v hv
    obtain ⟨hname, hmin, hmax⟩ := of_decide_eq_true hrow
    exact ⟨_, row.1, v, h, hname, hv, hmin, hmax⟩
  · cases hrow

/-- An update replaces the parameters it gives and keeps the others. -/
theorem Parameters.lookup_updateParameters (live given : Parameters) (c : Int32) :
    (live.updateParameters given).lookup c = (given.lookup c).or (live.lookup c) := by
  have hfold : ∀ (l : List (Sigma fun _ : Int32 => Parameter)), l.NodupKeys → ∀ m : Parameters,
      (l.foldl (fun params e => params.insert e.1 e.2) m).lookup c =
        (l.dlookup c).or (m.lookup c) := by
    intro l
    induction l with
    | nil => exact fun _ m => rfl
    | cons e rest ih =>
      intro hnodup m
      obtain ⟨k, v⟩ := e
      rw [List.nodupKeys_cons] at hnodup
      rw [List.foldl_cons, ih hnodup.2, FMap.lookup_insert_eq]
      by_cases hk : c = k
      · subst hk
        rw [List.dlookup_eq_none.2 hnodup.1, List.dlookup_cons_eq, if_pos rfl]
        rfl
      · rw [List.dlookup_cons_ne _ _ hk, if_neg hk]
  exact hfold given.entries given.nodupKeys live

theorem lookup_mergedParameters (fc : ForkController) (stored : Parameters) (c : Int32) :
    (mergedParameters fc stored).lookup c =
      (stored.lookup c).or ((initialProposalParameters fc).lookup c) :=
  Parameters.lookup_updateParameters _ _ c

end KleverGo
