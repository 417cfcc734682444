import KleverGo.Governance.Buckets

/-!
# Verdicts

What the start of an epoch does to the proposals that end in it and to the network parameters.

* `settled`: a proposal with its verdict; `settled_status` says which one it is.
* `settleSteps_eq`: the loop over a bucket gives every proposal its verdict and overwrites the
  parameters by those of the approved ones, in the order of the bucket.
* `processProposalsEndOfEpoch_eq`: no stored proposal makes a settlement fail.
-/

namespace KleverGo.Governance

open List Option FMap

/-! ## Parameters -/

/-- The parameters with the values of a proposal; their types stay. -/
def Overwrites (params : Parameters) (values : FMap Int32 Bytes) (params' : Parameters) : Prop :=
  ∀ c, params'.lookup c =
    (params.lookup c).map fun q => { q with value := (values.lookup c).getD q.value }

/-- Parameter sets with the same parameters, of the same types. -/
def SameTypes (params params' : Parameters) : Prop :=
  ∀ c, (params'.lookup c).map (·.type) = (params.lookup c).map (·.type)

theorem SameTypes.trans {params params1 params2 : Parameters} (h1 : SameTypes params params1)
    (h2 : SameTypes params1 params2) : SameTypes params params2 :=
  fun c => (h2 c).trans (h1 c)

theorem SameTypes.acceptable {params params' : Parameters} (h : SameTypes params params')
    {c : Int32} {value : Bytes} : Acceptable params' c value ↔ Acceptable params c value := by
  have hone : ∀ {p p' : Parameters}, SameTypes p p' → Acceptable p c value →
      Acceptable p' c value := by
    rintro p p' hsame ⟨q, name, v, hq, hname, hv, hbounds⟩
    have htype := hsame c
    rw [hq, map_some] at htype
    obtain ⟨q', hq', heq⟩ := map_eq_some_iff.1 htype
    exact ⟨q', name, v, hq', hname, by rw [heq]; exact hv, hbounds⟩
  exact ⟨hone fun c => (h c).symm, hone h⟩

section
variable {fc : ForkController}

section
variable (hfork : fc.fixAuditChangesV6 = true)
include hfork

theorem validateAndApplyParameter_eq {params : Parameters} {e : Sigma fun _ : Int32 => Bytes}
    (h : Acceptable params e.1 e.2) :
    ∃ params', validateAndApplyParameter fc params e = .ok params' ∧
      ∀ c, params'.lookup c = (params.lookup c).map fun q =>
        if c = e.1 then { q with value := e.2 } else q := by
  have hvalid := (Parameters.parseParamAndValidate_iff (u := ()) hfork).2 h
  obtain ⟨q, _, _, hq, -⟩ := h
  refine ⟨params.insert e.1 { q with value := e.2 }, ?_, fun c => ?_⟩
  · rw [validateAndApplyParameter, hvalid, hq]
    rfl
  rw [lookup_insert_eq]
  split
  · rename_i hc
    rw [hc, hq, map_some]
  · rw [Option.map_id']

/-- The parameters of an approved proposal are all applied. -/
theorem updateApprovedProposalParameters_eq {params : Parameters} {p : ProposalData}
    (h : ∀ e ∈ p.parameters.entries, Acceptable params e.1 e.2) :
    ∃ params', updateApprovedProposalParameters fc p params = .ok params' ∧
      Overwrites params p.parameters params' := by
  have hfold : ∀ (l : List (Sigma fun _ : Int32 => Bytes)), l.NodupKeys → ∀ m : Parameters,
      (∀ e ∈ l, Acceptable m e.1 e.2) →
      ∃ m', l.foldlM (validateAndApplyParameter fc) m = .ok m' ∧ ∀ c, m'.lookup c =
        (m.lookup c).map fun q => { q with value := (l.dlookup c).getD q.value } := by
    intro l
    induction l with
    | nil =>
      intro _ m _
      refine ⟨m, rfl, fun c => ?_⟩
      rw [dlookup_nil]
      exact map_id'.symm
    | cons e rest ih =>
      intro hnodup m hall
      rw [nodupKeys_cons] at hnodup
      obtain ⟨m1, hm1, hlookup1⟩ :=
        validateAndApplyParameter_eq hfork (hall e mem_cons_self)
      have hsame : SameTypes m m1 := by
        intro c
        rw [hlookup1 c, Option.map_map]
        refine Option.map_congr fun q _ => ?_
        split <;> rfl
      obtain ⟨m2, hm2, hlookup2⟩ := ih hnodup.2 m1 fun e' he' =>
        hsame.acceptable.2 (hall e' (mem_cons_of_mem _ he'))
      refine ⟨m2, by rw [foldlM_cons, hm1]; exact hm2, fun c => ?_⟩
      rw [hlookup2 c, hlookup1 c, Option.map_map]
      refine Option.map_congr fun q _ => ?_
      dsimp only [Function.comp_apply]
      by_cases hc : c = e.1
      · subst hc
        rw [if_pos rfl, dlookup_eq_none.2 hnodup.1]
        obtain ⟨k, v⟩ := e
        rw [dlookup_cons_eq]
        rfl
      · rw [if_neg hc]
        obtain ⟨k, v⟩ := e
        rw [dlookup_cons_ne _ _ hc]
  exact hfold p.parameters.entries p.parameters.nodupKeys params h

theorem validateProposalParameters_isOk {params : Parameters} {p : ProposalData} :
    (validateProposalParameters fc p params).isOk = true ↔
      ∀ e ∈ p.parameters.entries, Acceptable params e.1 e.2 := by
  unfold validateProposalParameters
  induction p.parameters.entries with
  | nil => simp [Except.isOk, Except.toBool, pure, Except.pure]
  | cons e rest ih =>
    rw [List.forM, forall_mem_cons, ← ih, ← Parameters.parseParamAndValidate_iff (u := ()) hfork]
    cases params.parseParamAndValidate fc e.1 e.2 with
    | error err => simp [Bind.bind, Except.bind, Except.isOk, Except.toBool]
    | ok u => simp [Bind.bind, Except.bind]

end

end

/-! ## The verdict -/

/-- The proposal with its verdict, on parameters of the given types. -/
def settled (fc : ForkController) (kfi : StakingData) (params : Parameters) (p : ProposalData) :
    ProposalData :=
  { p with
    proposalStatus :=
      if kfi.totalStaked / 2 < votesOf p .Yes ∧ (validateProposalParameters fc p params).isOk then
        .ApprovedProposal
      else .DeniedProposal
    totalStaked := kfi.totalStaked }

def approved (p : ProposalData) : Bool := p.proposalStatus = .ApprovedProposal

/-- The parameters after the approved proposals of a list, each overwriting the earlier ones. -/
def OverwritesAll (params : Parameters) (proposals : List ProposalData) (params' : Parameters) :
    Prop :=
  ∀ c, params'.lookup c = (params.lookup c).map fun q =>
    proposals.foldl (fun q p => { q with value := (p.parameters.lookup c).getD q.value }) q

theorem OverwritesAll.nil (params : Parameters) : OverwritesAll params [] params :=
  fun _ => map_id'.symm

theorem OverwritesAll.append {params params1 params2 : Parameters} {l1 l2 : List ProposalData}
    (h1 : OverwritesAll params l1 params1) (h2 : OverwritesAll params1 l2 params2) :
    OverwritesAll params (l1 ++ l2) params2 := by
  intro c
  rw [h2 c, h1 c, Option.map_map]
  refine Option.map_congr fun q _ => ?_
  rw [foldl_append]
  rfl

theorem OverwritesAll.sameTypes {params params' : Parameters} {l : List ProposalData}
    (h : OverwritesAll params l params') : SameTypes params params' := by
  intro c
  rw [h c, Option.map_map]
  have htype : ∀ (l : List ProposalData) (q : Parameter), (l.foldl (fun q p =>
      { q with value := (p.parameters.lookup c).getD q.value }) q).type = q.type := by
    intro l
    induction l with
    | nil => exact fun q => rfl
    | cons p rest ih => exact fun q => ih _
  exact Option.map_congr fun q _ => htype l q

section
variable {fc : ForkController} {kfi : StakingData} {σ : ProposalStore} {params : Parameters}

section
variable (hfork : fc.fixAuditChangesV6 = true)
include hfork

/-- An approved proposal is applied as a whole or denied. -/
theorem applyApproved_eq (params : Parameters) (p : ProposalData) :
    ∃ params', applyApproved fc params p = .ok (params',
        if (validateProposalParameters fc p params).isOk then p
        else { p with proposalStatus := .DeniedProposal }) ∧
      if (validateProposalParameters fc p params).isOk then Overwrites params p.parameters params'
      else params' = params := by
  by_cases hvalid : (validateProposalParameters fc p params).isOk = true
  · obtain ⟨params', happly, hover⟩ := updateApprovedProposalParameters_eq hfork
      ((validateProposalParameters_isOk hfork).1 hvalid)
    refine ⟨params', ?_, by rw [if_pos hvalid]; exact hover⟩
    rw [applyApproved, if_neg fun h => h.2 hvalid, happly, if_pos hvalid]
    rfl
  · refine ⟨params, ?_, by rw [if_neg hvalid]⟩
    rw [applyApproved, if_pos ⟨hfork, hvalid⟩, if_neg hvalid]

/-- The settlement of one proposal never fails. -/
theorem processSingleProposal_eq (kfi : StakingData) (params : Parameters) {id : Nat}
    {p : ProposalData} (hp : σ.proposals.lookup id = some p) :
    ∃ params', processSingleProposal fc kfi σ params id = .ok (params', settled fc kfi params p) ∧
      OverwritesAll params ([settled fc kfi params p].filter approved) params' := by
  have hstep : processSingleProposal fc kfi σ params id =
      if determineProposalStatus p kfi ≠ .ApprovedProposal then .ok (params, { p with
        proposalStatus := determineProposalStatus p kfi, totalStaked := kfi.totalStaked })
      else applyApproved fc params { p with
        proposalStatus := determineProposalStatus p kfi, totalStaked := kfi.totalStaked } := by
    rw [processSingleProposal, hp]
    rfl
  rw [hstep]
  by_cases hvotes : kfi.totalStaked / 2 < votesOf p .Yes
  · have hstatus : determineProposalStatus p kfi = .ApprovedProposal := if_pos hvotes
    rw [hstatus, if_neg fun h => h rfl]
    obtain ⟨params', happly, hover⟩ := applyApproved_eq hfork params
      { p with proposalStatus := .ApprovedProposal, totalStaked := kfi.totalStaked }
    refine ⟨params', ?_⟩
    by_cases hvalid : (validateProposalParameters fc p params).isOk = true
    · rw [if_pos (by exact hvalid)] at happly hover
      have hsettled : settled fc kfi params p =
          { p with proposalStatus := .ApprovedProposal, totalStaked := kfi.totalStaked } := by
        rw [settled, if_pos (And.intro hvotes hvalid)]
      rw [hsettled]
      exact ⟨happly, hover⟩
    · rw [if_neg (by exact hvalid)] at happly hover
      have hsettled : settled fc kfi params p =
          { p with proposalStatus := .DeniedProposal, totalStaked := kfi.totalStaked } := by
        rw [settled, if_neg fun h => hvalid h.2]
      subst hover
      rw [hsettled]
      exact ⟨happly, .nil params'⟩
  · have hstatus : determineProposalStatus p kfi = .DeniedProposal := if_neg hvotes
    have hsettled : settled fc kfi params p =
        { p with proposalStatus := .DeniedProposal, totalStaked := kfi.totalStaked } := by
      rw [settled, if_neg fun h => hvotes h.1]
    rw [hstatus, if_pos (by decide), hsettled]
    exact ⟨params, rfl, .nil params⟩

theorem settled_congr {params1 : Parameters} (h : SameTypes params params1) (p : ProposalData) :
    settled fc kfi params1 p = settled fc kfi params p := by
  have hvalid : (validateProposalParameters fc p params1).isOk = true ↔
      (validateProposalParameters fc p params).isOk = true := by
    rw [validateProposalParameters_isOk hfork, validateProposalParameters_isOk hfork]
    simp only [h.acceptable]
  simp only [settled, hvalid]

end

/-- The approved proposals of a list of identifiers, in its order. -/
def approvedOf (proposals : FMap Nat ProposalData) (ids : List Nat) : List ProposalData :=
  (ids.filterMap fun id => proposals.lookup id).filter approved

/-- **The loop of a settlement** gives every proposal its verdict and overwrites the parameters by
those of the approved ones. -/
theorem settleSteps_eq (hfork : fc.fixAuditChangesV6 = true) (kfi : StakingData)
    (params : Parameters) {ids : List Nat} (hnodup : ids.Nodup)
    (hstored : ∀ id ∈ ids, ∃ p, σ.proposals.lookup id = some p) :
    ∃ m params', ids.foldlM (settleStep fc kfi) (σ, params) =
        .ok ({ σ with proposals := m }, params') ∧
      Rewrites (settled fc kfi params) { id | id ∈ ids } σ.proposals m ∧
      OverwritesAll params (approvedOf m ids) params' := by
  induction ids generalizing σ params with
  | nil =>
    refine ⟨σ.proposals, params, rfl, ⟨fun id hid => ?_, fun _ _ => rfl⟩, .nil params⟩
    exact absurd hid not_mem_nil
  | cons id rest ih =>
    rw [nodup_cons] at hnodup
    obtain ⟨p, hp⟩ := hstored id mem_cons_self
    obtain ⟨params1, hone, hover1⟩ := processSingleProposal_eq hfork kfi params hp
    have hstep : settleStep fc kfi (σ, params) id =
        .ok (setProposal σ id (settled fc kfi params p), params1) := by
      rw [settleStep, hone]
      rfl
    have hstored' : ∀ id' ∈ rest, ∃ q,
        (setProposal σ id (settled fc kfi params p)).proposals.lookup id' = some q := by
      intro id' hid'
      obtain ⟨q, hq⟩ := hstored id' (mem_cons_of_mem _ hid')
      refine ⟨q, ?_⟩
      have hne : id' ≠ id := fun heq => hnodup.1 (heq ▸ hid')
      rw [setProposal, lookup_insert_eq, if_neg hne, hq]
    obtain ⟨m, params', hfold, hrewrites, hover⟩ := ih params1 hnodup.2 hstored'
    have hsame : settled fc kfi params1 = settled fc kfi params :=
      funext (settled_congr hfork hover1.sameTypes)
    rw [hsame] at hrewrites
    have hfirst : Rewrites (settled fc kfi params) {id} σ.proposals
        (setProposal σ id (settled fc kfi params p)).proposals := .of_insert hp
    have hboth := hfirst.trans hrewrites (Set.disjoint_left.2 fun k hk hmem => by
      rw [Set.mem_singleton_iff] at hk
      exact hnodup.1 (hk ▸ hmem))
    have hset : ({id} ∪ { id' | id' ∈ rest } : Set Nat) = { id' | id' ∈ id :: rest } := by
      ext id'
      simp
    rw [hset] at hboth
    refine ⟨m, params', ?_, hboth, ?_⟩
    · rw [foldlM_cons, hstep]
      exact hfold
    have hlookup : m.lookup id = some (settled fc kfi params p) := by
      rw [hboth.inside id mem_cons_self, hp, map_some]
    have hlist : approvedOf m (id :: rest) =
        [settled fc kfi params p].filter approved ++ approvedOf m rest := by
      unfold approvedOf
      rw [filterMap_cons, hlookup, ← filter_append]
      rfl
    rw [hlist]
    exact hover1.append hover

theorem settleBucket_eq (hfork : fc.fixAuditChangesV6 = true) (kfi : StakingData) (epoch : UInt32)
    (live : Parameters) (c : ProposalController) {ids : List Nat} (hnodup : ids.Nodup)
    (hstored : ∀ id ∈ ids, ∃ p, σ.proposals.lookup id = some p) :
    ∃ σ', settleBucket fc kfi epoch σ live c ids =
        .ok (σ', live.updateParameters σ'.controller.activeParameters) ∧
      Rewrites (settled fc kfi c.activeParameters) { id | id ∈ ids } σ.proposals σ'.proposals ∧
      OverwritesAll c.activeParameters (approvedOf σ'.proposals ids)
        σ'.controller.activeParameters := by
  obtain ⟨m, params', hfold, hrewrites, hover⟩ :=
    settleSteps_eq hfork kfi c.activeParameters hnodup hstored
  refine ⟨{ σ with proposals := m, controller := { c with
    activeParameters := params', activeProposals := c.activeProposals.erase epoch } }, ?_,
    hrewrites, hover⟩
  rw [settleBucket, hfold]
  rfl

end

/-- Whatever a settlement applies, the parameters and their types stay. -/
theorem settleBucket_parameters {fc : ForkController} {kfi : StakingData} {epoch : UInt32}
    {σ σ' : ProposalStore} {live live' : Parameters} {c : ProposalController} {ids : List Nat}
    (h : settleBucket fc kfi epoch σ live c ids = .ok (σ', live')) :
    SameTypes c.activeParameters σ'.controller.activeParameters ∧
      live' = live.updateParameters σ'.controller.activeParameters := by
  have happly : ∀ (m : Parameters) (e : Sigma fun _ : Int32 => Bytes) (m' : Parameters),
      SameTypes c.activeParameters m → validateAndApplyParameter fc m e = .ok m' →
      SameTypes c.activeParameters m' := by
    intro m e m' hm hstep
    simp only [validateAndApplyParameter, bind_eq_ok, orError_eq_ok, pure_eq_ok]
      at hstep
    obtain ⟨_, -, q, hq, rfl⟩ := hstep
    refine hm.trans fun k => ?_
    rw [lookup_insert_eq]
    split
    · rename_i hk
      rw [hk, hq]
      rfl
    · rfl
  have hone : ∀ (acc : ProposalStore × Parameters) (id : Nat) (acc' : ProposalStore × Parameters),
      SameTypes c.activeParameters acc.2 → settleStep fc kfi acc id = .ok acc' →
      SameTypes c.activeParameters acc'.2 := by
    intro acc id acc' hacc hstep
    simp only [settleStep, processSingleProposal, applyApproved, bind_eq_ok, pure_eq_ok] at hstep
    obtain ⟨⟨params, p⟩, ⟨q, -, hsingle⟩, rfl⟩ := hstep
    split at hsingle
    · cases hsingle
      exact hacc
    split at hsingle
    · cases hsingle
      exact hacc
    · simp only [bind_eq_ok, pure_eq_ok] at hsingle
      obtain ⟨params', hupdate, heq⟩ := hsingle
      cases heq
      exact foldlM_invariant happly hacc hupdate
  simp only [settleBucket, bind_eq_ok, pure_eq_ok] at h
  obtain ⟨⟨σ1, params⟩, hfold, heq⟩ := h
  cases heq
  exact ⟨foldlM_invariant (P := fun acc => SameTypes c.activeParameters acc.2) hone
    (fun _ => rfl) hfold, rfl⟩

/-- A proposal that is carried: more than half of the staked KFI voted Yes, and every parameter is
acceptable. -/
def Carried (kfi : StakingData) (params : Parameters) (p : ProposalData) : Prop :=
  kfi.totalStaked.toInt < 2 * (votesOf p .Yes).toInt ∧
    ∀ e ∈ p.parameters.entries, Acceptable params e.1 e.2

/-- Half of a stake, rounded down, is exceeded by what doubled exceeds the stake. -/
theorem half_lt_iff {total yes : Int64} (h : 0 ≤ total.toInt) :
    total / 2 < yes ↔ total.toInt < 2 * yes.toInt := by
  have htwo : (2 : Int64).toInt = 2 := rfl
  rw [Int64.lt_iff_toInt_lt, Int64.toInt_div_of_ne_right _ _ (by decide), htwo,
    Int.tdiv_eq_ediv_of_nonneg h]
  omega

/-- **The verdict** is approval exactly for the proposals that are carried. -/
theorem settled_status {fc : ForkController} (hfork : fc.fixAuditChangesV6 = true)
    {kfi : StakingData} (hkfi : 0 ≤ kfi.totalStaked.toInt) {params : Parameters} {p : ProposalData} :
    ((settled fc kfi params p).proposalStatus = .ApprovedProposal ↔ Carried kfi params p) ∧
    ((settled fc kfi params p).proposalStatus = .DeniedProposal ↔ ¬ Carried kfi params p) := by
  have hcarried : (kfi.totalStaked / 2 < votesOf p .Yes ∧
      (validateProposalParameters fc p params).isOk = true) ↔ Carried kfi params p := by
    rw [half_lt_iff hkfi, validateProposalParameters_isOk hfork]
    rfl
  by_cases h : Carried kfi params p
  · simp [settled, if_pos (hcarried.2 h), h]
  · simp [settled, if_neg (mt hcarried.1 h), h]

/-! ## The start of an epoch -/

/-- The parameters in force: the stored ones, and the initial values of those the store lacks. -/
def inForce (fc : ForkController) (σ : ProposalStore) : Parameters :=
  (mergeInitialParameters fc σ.controller).1.activeParameters

theorem inForce_complete (fc : ForkController) (σ : ProposalStore) :
    (initialProposalParameters fc).entries.length ≤ (inForce fc σ).entries.length := by
  unfold inForce mergeInitialParameters
  split
  · assumption
  · refine length_le_of_lookup fun c hc => ?_
    rw [lookup_mergedParameters, or_eq_none_iff] at hc
    exact hc.2

theorem inForce_congr (fc : ForkController) {σ σ' : ProposalStore}
    (h : σ'.controller.activeParameters = σ.controller.activeParameters) :
    inForce fc σ' = inForce fc σ := by
  simp only [inForce, mergeInitialParameters, h]
  split
  · exact h
  · rfl

/-- The identifiers in the bucket of an epoch. -/
def bucketOf (σ : ProposalStore) (epoch : UInt32) : List Nat :=
  (σ.controller.activeProposals.lookup epoch).getD []

/-- What the start of an epoch does to the proposals and to the parameters in force. -/
structure Settlement (fc : ForkController) (kfi : StakingData) (epoch : UInt32)
    (σ σ' : ProposalStore) : Prop where
  proposals : Rewrites (settled fc kfi (inForce fc σ)) { id | id ∈ bucketOf σ epoch }
    σ.proposals σ'.proposals
  parameters : OverwritesAll (inForce fc σ) (approvedOf σ'.proposals (bucketOf σ epoch))
    (inForce fc σ')

theorem bucketOf_nodup {σ : ProposalStore} (hb : Buckets σ) (epoch : UInt32) :
    (bucketOf σ epoch).Nodup := by
  unfold bucketOf
  cases hids : σ.controller.activeProposals.lookup epoch with
  | none => exact nodup_nil
  | some ids =>
    have hperm := activeProposalIDs_erase hids σ.controller.activeParameters
    exact (nodup_append.1 (hperm.nodup_iff.1 hb.nodup)).2.1

theorem mem_bucketOf {σ : ProposalStore} (hb : Buckets σ) {epoch : UInt32} {id : Nat} :
    id ∈ bucketOf σ epoch ↔ ∃ p, σ.proposals.lookup id = some p ∧
      p.proposalStatus = .ActiveProposal ∧ p.epochEnd = epoch := by
  unfold bucketOf
  constructor
  · intro hid
    cases hids : σ.controller.activeProposals.lookup epoch with
    | none =>
      rw [hids] at hid
      cases hid
    | some ids =>
      rw [hids] at hid
      obtain ⟨p, hp, hactive⟩ := (hb.active id).1 (mem_activeProposalIDs.2 ⟨epoch, ids, hids, hid⟩)
      exact ⟨p, hp, hactive, hb.ended epoch ids hids id hid p hp⟩
  · rintro ⟨p, hp, hactive, rfl⟩
    obtain ⟨epoch, ids, hids, hid⟩ := mem_activeProposalIDs.1 ((hb.active id).2 ⟨p, hp, hactive⟩)
    rw [← hb.ended epoch ids hids id hid p hp] at hids
    rw [hids]
    exact hid

/-- **No stored proposal makes a settlement fail.** -/
theorem processProposalsEndOfEpoch_eq {fc : ForkController} (hfork : fc.fixAuditChangesV6 = true)
    {s : Chain} (hb : Buckets s.proposals) {klv kfi : StakingData}
    (hklv : s.staking.lookup KLVIdentifier = some klv)
    (hkfi : s.staking.lookup KFIIdentifier = some kfi) (epoch : UInt32) (live : Parameters) :
    ∃ σ' live', processProposalsEndOfEpoch fc epoch s live =
        .ok ({ s with proposals := σ' }, live') ∧ Settlement fc kfi epoch s.proposals σ' := by
  unfold processProposalsEndOfEpoch
  simp only [mergeInitialParameters_activeProposals]
  generalize (if (mergeInitialParameters fc s.proposals.controller).2 = true then
    live.updateParameters (mergeInitialParameters fc s.proposals.controller).1.activeParameters
    else live) = live1
  cases hids : s.proposals.controller.activeProposals.lookup epoch with
  | none =>
    have hempty : bucketOf s.proposals epoch = [] := by rw [bucketOf, hids]; rfl
    refine ⟨s.proposals, _, rfl, ⟨fun id hid => ?_, fun _ _ => rfl⟩, ?_⟩
    · rw [hempty] at hid
      exact absurd hid not_mem_nil
    · rw [hempty]
      exact .nil _
  | some ids =>
    have hbucket : bucketOf s.proposals epoch = ids := by rw [bucketOf, hids]; rfl
    have hstored : ∀ id ∈ bucketOf s.proposals epoch, ∃ p,
        s.proposals.proposals.lookup id = some p := fun id hid =>
      let ⟨p, hp, _⟩ := (mem_bucketOf hb).1 hid
      ⟨p, hp⟩
    have hnative : nativeKFIStaking s = .ok kfi := by
      rw [nativeKFIStaking, hklv, hkfi]
      rfl
    obtain ⟨σ', hsettle, hrewrites, hover⟩ := settleBucket_eq hfork kfi epoch live1
      (mergeInitialParameters fc s.proposals.controller).1 (bucketOf_nodup hb epoch) hstored
    rw [hbucket] at hsettle
    refine ⟨σ', live1.updateParameters σ'.controller.activeParameters, ?_, hrewrites, ?_⟩
    · simp only [hnative, bind_eq_ok, pure_eq_ok]
      exact ⟨kfi, rfl, _, hsettle, rfl⟩
    have hforce : inForce fc σ' = σ'.controller.activeParameters := by
      rw [inForce, mergeInitialParameters, if_pos]
      refine Nat.le_trans (inForce_complete fc s.proposals) (length_le_of_lookup fun c hc => ?_)
      rw [hover c, map_eq_none_iff] at hc
      exact hc
    rw [hforce]
    exact hover

end KleverGo.Governance
