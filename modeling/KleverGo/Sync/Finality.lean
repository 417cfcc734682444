import KleverGo.Sync.ForkChoice

/-!
# Finality

The fork detector of a node that processes blocks, receives headers and rolls back, with `rollBack`
and the handling of a fork in `syncBlock` of `core/process/sync/baseSync.go`.  The chain of the node
is the list of its blocks, the head first.

The checkpoint before the head becomes final when the next block is processed; rolling back removes
checkpoints.  `Sound` is what every step keeps: the final checkpoint is one of the checkpoints, none
is behind it and none is ahead of the head.

* `run_sound` — every run keeps it;
* `finality_never_undone` — **the final nonce never decreases and is at most that of the last
  checkpoint and of the head, lower than that of the head after a block is processed, and no block at
  or below it is ever rolled back**;
* `rolled_back_to_final` — after a rollback the head can be the final block;
* `run_admitted` — every header of a run is one that fork choice can compare.
-/

namespace KleverGo.Sync

open List UInt64

/-- A node: its fork detector and the nonces and hashes of its blocks above the genesis. -/
structure Node where
  detector : ForkDetector
  chain : List (UInt64 × Bytes) := []

namespace Node

def headNonce (node : Node) : UInt64 := (node.chain.head?.map Prod.fst).getD 0

/-- `GetHighestFinalBlockNonce` -/
def finalNonce (node : Node) : UInt64 := node.detector.finalCheckpoint.nonce

/-- `AddHeader`, whose errors are not critical. -/
def addHeader (moment : Moment) (header : Header) (hash : Bytes) (state : BlockHeaderState)
    (node : Node) : Node :=
  match node.detector.addHeader moment header hash state with
  | .ok detector => { node with detector }
  | .error _ => node

/-- `CommitBlock`, for a block that extends the chain. -/
def commitBlock (moment : Moment) (header : Header) (hash : Bytes) (node : Node) : Node :=
  let node := node.addHeader moment header hash .BHProcessed
  { node with chain := (header.nonce, hash) :: node.chain }

/-- The loop of `rollBack`, along the chain: the nonces that are rolled back, and the node they
leave.  `succeeds` says which blocks can be reverted. -/
def rollBackAlong (revertUsingForkNonce : Bool) (forkNonce : UInt64) (succeeds : UInt64 → Bool) :
    List (UInt64 × Bytes) → ForkDetector → List UInt64 × Node
  | [], detector => ([], { detector, chain := [] })
  | (nonce, hash) :: chain, detector =>
    -- `ErrRollBackBehindFinalHeader`
    if revertUsingForkNonce = false ∧ nonce ≤ detector.finalCheckpoint.nonce then
      ([], { detector, chain := (nonce, hash) :: chain })
    -- `ErrRollBackBehindForkNonce`
    else if revertUsingForkNonce = true ∧ nonce < forkNonce then
      ([], { detector, chain := (nonce, hash) :: chain })
    else if succeeds nonce = false then ([], { detector, chain := (nonce, hash) :: chain })
    else
      let detector := detector.removeHeader nonce hash
      if revertUsingForkNonce = true ∧ nonce > forkNonce then
        let (rolledBack, node) :=
          rollBackAlong revertUsingForkNonce forkNonce succeeds chain detector
        (nonce :: rolledBack, node)
      else ([nonce], { detector, chain })

def rollBack (revertUsingForkNonce : Bool) (forkNonce : UInt64) (succeeds : UInt64 → Bool)
    (node : Node) : List UInt64 × Node :=
  rollBackAlong revertUsingForkNonce forkNonce succeeds node.chain node.detector

def mapDetector (f : ForkDetector → ForkDetector) (node : Node) : Node :=
  { node with detector := f node.detector }

def rollBackOneBlockForced (moment : Moment) (succeeds : UInt64 → Bool) (node : Node) :
    List UInt64 × Node :=
  let (rolledBack, node) := node.rollBack false 0 succeeds
  (rolledBack, node.mapDetector (ForkDetector.resetFork moment))

def rollBackToNonceForced (forkNonce : UInt64) (succeeds : UInt64 → Bool) (node : Node) :
    List UInt64 × Node :=
  let (rolledBack, node) := node.rollBack true forkNonce succeeds
  (rolledBack, node.mapDetector ForkDetector.resetProbableHighestNonce)

/-- What `syncBlock` does about a fork. -/
def resolveFork (moment : Moment) (order : List (UInt64 × List HeaderInfo))
    (succeeds : UInt64 → Bool) (node : Node) : List UInt64 × Node :=
  let (forkInfo, detector) := node.detector.checkFork moment order
  let node := { node with detector }
  if forkInfo.isDetected = false then ([], node)
  -- `isForcedRollBackOneBlock`
  else if forkInfo.nonce = maxUint64 ∧ forkInfo.hash = none then
    node.rollBackOneBlockForced moment succeeds
  -- `isForcedRollBackToNonce`
  else if forkInfo.slot = maxUint64 ∧ forkInfo.hash = none then
    node.rollBackToNonceForced forkInfo.nonce succeeds
  else node.rollBack true forkInfo.nonce succeeds

end Node

inductive SyncStep where
  | process (moment : Moment) (header : Header) (hash : Bytes)
  | receive (moment : Moment) (header : Header) (hash : Bytes) (state : BlockHeaderState)
  | checkFork (moment : Moment) (order : List (UInt64 × List HeaderInfo)) (succeeds : UInt64 → Bool)
  | rollBackOneBlock (moment : Moment) (succeeds : UInt64 → Bool)

namespace Node

/-- One step: the nonces it rolls back, and the node it leaves. -/
def step (node : Node) : SyncStep → List UInt64 × Node
  | .process moment header hash => ([], node.commitBlock moment header hash)
  | .receive moment header hash state => ([], node.addHeader moment header hash state)
  | .checkFork moment order succeeds => node.resolveFork moment order succeeds
  | .rollBackOneBlock moment succeeds => node.rollBackOneBlockForced moment succeeds

/-- A processed header extends the chain by one nonce, and a received one is not processed. -/
def Allows (node : Node) : SyncStep → Prop
  | .process _ header _ => header.nonce.toNat = node.headNonce.toNat + 1
  | .receive _ _ _ state => state ≠ .BHProcessed
  | .checkFork _ _ _ | .rollBackOneBlock _ _ => True

/-- A run: all the nonces it rolls back, and the node it leaves. -/
def run (node : Node) : List SyncStep → List UInt64 × Node
  | [] => ([], node)
  | step :: steps =>
    let (rolledBack, node) := node.step step
    let (rolledBack', node) := node.run steps
    (rolledBack ++ rolledBack', node)

def AllowsAll (node : Node) : List SyncStep → Prop
  | [] => True
  | step :: steps => node.Allows step ∧ (node.step step).2.AllowsAll steps

end Node

/-! ## What every step keeps -/

namespace ForkDetector

/-- Nothing of the checkpoints is changed. -/
structure SameCheckpoints (a b : ForkDetector) : Prop where
  checkpoint : b.checkpoint = a.checkpoint
  final : b.finalCheckpoint = a.finalCheckpoint
  rollBackNonce : b.rollBackNonce = a.rollBackNonce

variable {bfd : ForkDetector}

theorem sameCheckpoints_append (info : HeaderInfo) : SameCheckpoints bfd (bfd.append info).2 := by
  unfold append
  dsimp only
  split <;> exact ⟨rfl, rfl, rfl⟩

theorem SameCheckpoints.trans {a b c : ForkDetector} (hab : SameCheckpoints a b)
    (hbc : SameCheckpoints b c) : SameCheckpoints a c :=
  ⟨hbc.1.trans hab.1, hbc.2.trans hab.2, hbc.3.trans hab.3⟩

/-- What `processReceivedBlock` does to the checkpoints: nothing, or what is done for a processed
header. -/
theorem processReceivedBlock_checkpoints (moment : Moment) (header : Header) (hash : Bytes)
    (state : BlockHeaderState) :
    SameCheckpoints bfd (bfd.processReceivedBlock moment header hash state) ∨
      (state = .BHProcessed ∧ ∃ before, SameCheckpoints bfd before ∧
        SameCheckpoints (before.doJobOnBHProcessed header hash)
          (bfd.processReceivedBlock moment header hash state)) := by
  unfold processReceivedBlock
  have hhighest : SameCheckpoints bfd (bfd.setHighestNonceReceived header.nonce) := by
    unfold setHighestNonceReceived
    split <;> exact ⟨rfl, rfl, rfl⟩
  generalize bfd.setHighestNonceReceived header.nonce = highest at hhighest ⊢
  dsimp only
  split
  · exact .inl hhighest
  generalize hlate : (if isHeaderReceivedTooLate moment header state then
    BlockHeaderState.BHReceivedTooLate else state) = stored
  have hinfo := highest.sameCheckpoints_append
    ⟨header.epoch, header.nonce, header.slot, hash, stored⟩
  rcases hresult : highest.append ⟨header.epoch, header.nonce, header.slot, hash, stored⟩ with
    ⟨appended, after⟩
  rw [hresult] at hinfo
  split
  · exact .inl (hhighest.trans hinfo)
  split
  · next hprocessed =>
    refine .inr ⟨?_, after, hhighest.trans hinfo, ⟨rfl, rfl, rfl⟩⟩
    rw [hprocessed] at hlate
    split at hlate
    · cases hlate
    · exact hlate
  · exact .inl ((hhighest.trans hinfo).trans ⟨rfl, rfl, rfl⟩)

theorem foldl_checkForkAt_above (order : List (UInt64 × List HeaderInfo)) :
    let info := order.foldl bfd.checkForkAt {}
    info.nonce = maxUint64 ∧ info.hash = none ∨ bfd.finalCheckpoint.nonce < info.nonce := by
  induction order using reverseRecOn with
  | nil => exact .inl ⟨rfl, rfl⟩
  | append_singleton order last ih =>
    rw [foldl_append, foldl_cons, foldl_nil, checkForkAt_eq]
    cases hreport : bfd.reportAt last.1 last.2 with
    | none => exact ih
    | some report =>
      dsimp only
      split
      · refine .inr ?_
        rw [(reportAt_nonce hreport).1]
        by_contra hle
        rw [reportAt, if_pos (.inr (by grind))] at hreport
        cases hreport
      · exact ih

/-- A report of `CheckFork` is about a nonce above the final one, or about none. -/
theorem checkFork_above {moment : Moment} {order : List (UInt64 × List HeaderInfo)}
    (hrollBack : bfd.rollBackNonce = maxUint64) :
    SameCheckpoints bfd (bfd.checkFork moment order).2 ∧
      let info := (bfd.checkFork moment order).1
      info.nonce = maxUint64 ∧ info.hash = none ∨ bfd.finalCheckpoint.nonce < info.nonce := by
  obtain ⟨tmpStuck, heq⟩ := bfd.isConsensusStuck_eq moment
  unfold checkFork
  rcases hresult : bfd.isConsensusStuck moment with ⟨stuck, after⟩
  rw [hresult] at heq
  obtain rfl : after = { bfd with tmpStuck } := heq
  dsimp only
  split
  · exact ⟨⟨rfl, rfl, rfl⟩, .inl ⟨rfl, rfl⟩⟩
  have hnone : ¬ bfd.rollBackNonce < maxUint64 := by
    rw [hrollBack]
    decide
  rw [if_neg hnone]
  refine ⟨⟨rfl, rfl, rfl⟩, ?_⟩
  exact foldl_checkForkAt_above order

end ForkDetector

/-- The nonces of a chain descend by one, down to the first block. -/
def Descending : List (UInt64 × Bytes) → Prop
  | [] => True
  | (nonce, _) :: chain =>
    nonce.toNat = ((chain.head?.map Prod.fst).getD 0).toNat + 1 ∧ Descending chain

structure Sound (node : Node) : Prop where
  rollBackNonce : node.detector.rollBackNonce = maxUint64
  final : node.detector.finalCheckpoint ∈ node.detector.checkpoint
  behind : ∀ checkpoint ∈ node.detector.checkpoint, node.finalNonce ≤ checkpoint.nonce
  ahead : ∀ checkpoint ∈ node.detector.checkpoint, checkpoint.nonce ≤ node.headNonce
  chain : Descending node.chain

namespace Sound

variable {node : Node}

variable {detector : ForkDetector}

theorem of_sameCheckpoints (h : Sound node)
    (hsame : ForkDetector.SameCheckpoints node.detector detector) :
    Sound { node with detector } := by
  obtain ⟨hcheckpoint, hfinal, hrollBack⟩ := hsame
  refine ⟨hrollBack.trans h.rollBackNonce, ?_, ?_, ?_, h.chain⟩
  · rw [hcheckpoint, hfinal]
    exact h.final
  · change ∀ checkpoint ∈ detector.checkpoint, detector.finalCheckpoint.nonce ≤ checkpoint.nonce
    rw [hcheckpoint, hfinal]
    exact h.behind
  · rw [hcheckpoint]
    exact h.ahead

theorem lastCheckpoint_mem (h : Sound node) :
    node.detector.lastCheckpoint ∈ node.detector.checkpoint := by
  have hne : node.detector.checkpoint ≠ [] := ne_nil_of_mem h.final
  unfold ForkDetector.lastCheckpoint
  rw [getLast?_eq_some_getLast hne, Option.getD_some]
  exact getLast_mem hne

theorem addHeader_cases (node : Node) (moment : Moment) (header : Header) (hash : Bytes)
    (state : BlockHeaderState) :
    node.addHeader moment header hash state = node ∨
      (node.detector.checkBlockBasicValidity moment header = .ok () ∧
        node.addHeader moment header hash state = { node with
          detector := node.detector.processReceivedBlock moment header hash state }) := by
  unfold Node.addHeader ForkDetector.addHeader
  cases node.detector.checkBlockBasicValidity moment header with
  | error err => exact .inl rfl
  | ok _ => exact .inr ⟨rfl, rfl⟩

variable {hash : Bytes}

/-- Adding a header keeps the invariant; the final checkpoint can only become the last one, and only
with a processed header, which is then ahead of the chain. -/
theorem addHeader (h : Sound node) (moment : Moment) {header : Header} {state : BlockHeaderState}
    (hextends : state = .BHProcessed → header.nonce.toNat = node.headNonce.toNat + 1) :
    ((node.addHeader moment header hash state).finalNonce = node.finalNonce ∧
        Sound (node.addHeader moment header hash state)) ∨
      (state = .BHProcessed ∧
        (node.addHeader moment header hash state).finalNonce = node.detector.lastCheckpoint.nonce ∧
        Sound { node.addHeader moment header hash state with
          chain := (header.nonce, hash) :: node.chain }) := by
  rcases addHeader_cases node moment header hash state with heq | ⟨-, heq⟩ <;> rw [heq]
  · exact .inl ⟨rfl, h⟩
  rcases node.detector.processReceivedBlock_checkpoints moment header hash state with
    hsame | ⟨hprocessed, before, hbefore, hafter⟩
  · exact .inl ⟨congrArg CheckpointInfo.nonce hsame.final, h.of_sameCheckpoints hsame⟩
  have hlast : before.lastCheckpoint = node.detector.lastCheckpoint := by
    unfold ForkDetector.lastCheckpoint
    rw [hbefore.checkpoint]
  have hfinal : (node.detector.processReceivedBlock moment header hash state).finalCheckpoint =
      node.detector.lastCheckpoint := hafter.final.trans hlast
  let added : CheckpointInfo := ⟨header.nonce, header.slot, hash⟩
  have hcheckpoint : (node.detector.processReceivedBlock moment header hash state).checkpoint =
      (node.detector.checkpoint ++ [added]).filter fun checkpoint =>
        ¬ checkpoint.nonce < node.detector.lastCheckpoint.nonce := by
    rw [hafter.checkpoint, ← hlast, ← hbefore.checkpoint]
    rfl
  have hnext := hextends hprocessed
  have hahead := h.ahead _ h.lastCheckpoint_mem
  refine .inr ⟨hprocessed, congrArg CheckpointInfo.nonce hfinal, ?_, ?_, ?_, ?_, ⟨hnext, h.chain⟩⟩
  · exact (hafter.rollBackNonce.trans hbefore.rollBackNonce).trans h.rollBackNonce
  · rw [hcheckpoint, hfinal, mem_filter]
    exact ⟨mem_append_left _ h.lastCheckpoint_mem, by grind⟩
  · intro checkpoint hmem
    rw [hcheckpoint, mem_filter] at hmem
    change (node.detector.processReceivedBlock moment header hash state).finalCheckpoint.nonce ≤ _
    rw [hfinal]
    have hbound := hmem.2
    grind
  · intro checkpoint hmem
    rw [hcheckpoint, mem_filter] at hmem
    change checkpoint.nonce ≤ header.nonce
    rcases mem_append.1 hmem.1 with hold | hnew
    · have hle := h.ahead checkpoint hold
      rw [le_iff_toNat_le] at hle ⊢
      omega
    · rw [mem_singleton.1 hnew]
      grind

theorem removeHeader {nonce : UInt64} {chain : List (UInt64 × Bytes)}
    (h : Sound { detector, chain := (nonce, hash) :: chain })
    (habove : detector.finalCheckpoint.nonce < nonce) :
    Sound { detector := detector.removeHeader nonce hash, chain } := by
  have hmem : ∀ checkpoint, checkpoint ∈ (detector.removeHeader nonce hash).checkpoint ↔
      checkpoint ∈ detector.checkpoint ∧ checkpoint.nonce ≠ nonce := by
    intro checkpoint
    change checkpoint ∈ detector.checkpoint.filter (fun checkpoint => checkpoint.nonce ≠ nonce) ↔ _
    rw [mem_filter, decide_eq_true_iff]
  refine ⟨h.rollBackNonce, (hmem _).2 ⟨h.final, ?_⟩, ?_, ?_, h.chain.2⟩
  · change detector.finalCheckpoint.nonce ≠ nonce
    grind
  · intro checkpoint hcheckpoint
    exact h.behind checkpoint ((hmem checkpoint).1 hcheckpoint).1
  intro checkpoint hcheckpoint
  obtain ⟨hold, hne⟩ := (hmem checkpoint).1 hcheckpoint
  have hle : checkpoint.nonce ≤ nonce := h.ahead checkpoint hold
  have hhead : nonce.toNat = (Node.headNonce { detector, chain }).toNat + 1 := h.chain.1
  change checkpoint.nonce ≤ Node.headNonce { detector, chain }
  have hne' : checkpoint.nonce.toNat ≠ nonce.toNat := fun heq => hne (UInt64.toNat_inj.1 heq)
  rw [le_iff_toNat_le] at hle ⊢
  omega

variable {revertUsingForkNonce : Bool} {forkNonce : UInt64} {succeeds : UInt64 → Bool}

/-- Rolling back keeps the invariant and the final checkpoint, and touches only what is above it. -/
theorem rollBackAlong (chain : List (UInt64 × Bytes)) (h : Sound { detector, chain })
    (hfork : revertUsingForkNonce = true → detector.finalCheckpoint.nonce < forkNonce) :
    let result := Node.rollBackAlong revertUsingForkNonce forkNonce succeeds chain detector
    Sound result.2 ∧ result.2.finalNonce = detector.finalCheckpoint.nonce ∧
      ∀ nonce ∈ result.1, detector.finalCheckpoint.nonce < nonce := by
  induction chain generalizing detector with
  | nil => exact ⟨h, rfl, nofun⟩
  | cons block chain ih =>
    obtain ⟨nonce, hash⟩ := block
    unfold Node.rollBackAlong
    split
    · exact ⟨h, rfl, nofun⟩
    next hbehind =>
    split
    · exact ⟨h, rfl, nofun⟩
    next hend =>
    split
    · exact ⟨h, rfl, nofun⟩
    -- the block that is rolled back is above the final one
    have habove : detector.finalCheckpoint.nonce < nonce := by
      cases hrevert : revertUsingForkNonce with
      | false => grind
      | true =>
        have hlt := hfork hrevert
        grind
    have hremoved := h.removeHeader habove
    split
    · obtain ⟨hsound, hfinal, hrolledBack⟩ := ih hremoved hfork
      refine ⟨hsound, hfinal, ?_⟩
      intro rolled hrolled
      rcases mem_cons.1 hrolled with rfl | hrolled
      · exact habove
      · exact hrolledBack rolled hrolled
    · refine ⟨hremoved, rfl, ?_⟩
      intro rolled hrolled
      rw [mem_singleton.1 hrolled]
      exact habove

theorem final_le_last (h : Sound node) : node.finalNonce ≤ node.detector.lastCheckpoint.nonce :=
  h.behind _ h.lastCheckpoint_mem

theorem final_le_head (h : Sound node) : node.finalNonce ≤ node.headNonce :=
  h.ahead _ h.final

/-- What a step does: it keeps the invariant, the final nonce does not decrease, and what is rolled
back is above it. -/
structure Advances (node : Node) (result : List UInt64 × Node) : Prop where
  sound : Sound result.2
  final : node.finalNonce ≤ result.2.finalNonce
  above : ∀ nonce ∈ result.1, node.finalNonce < nonce

theorem rollBack (h : Sound node)
    (hfork : revertUsingForkNonce = true → node.finalNonce < forkNonce) :
    Advances node (node.rollBack revertUsingForkNonce forkNonce succeeds) := by
  obtain ⟨hsound, hfinal, habove⟩ := @rollBackAlong _ _ _ succeeds node.chain h hfork
  refine ⟨hsound, ?_, habove⟩
  change _ ≤ (Node.rollBackAlong revertUsingForkNonce forkNonce succeeds node.chain
    node.detector).2.finalNonce
  rw [hfinal]
  exact UInt64.le_refl _

theorem Advances.mapDetector {result : List UInt64 × Node} (h : Advances node result)
    {f : ForkDetector → ForkDetector} (hf : ∀ bfd, ForkDetector.SameCheckpoints bfd (f bfd)) :
    Advances node (result.1, result.2.mapDetector f) := by
  refine ⟨h.sound.of_sameCheckpoints (hf _), ?_, h.above⟩
  change _ ≤ (f result.2.detector).finalCheckpoint.nonce
  rw [(hf result.2.detector).final]
  exact h.final

section
variable (h : Sound node)
include h

theorem rollBackOneBlockForced (moment : Moment) (succeeds : UInt64 → Bool) :
    Advances node (node.rollBackOneBlockForced moment succeeds) := by
  have hrolled : Advances node (node.rollBack false 0 succeeds) := h.rollBack nofun
  have hreset : ∀ bfd, ForkDetector.SameCheckpoints bfd (ForkDetector.resetFork moment bfd) :=
    fun _ => ⟨rfl, rfl, rfl⟩
  exact hrolled.mapDetector hreset

theorem resolveFork (moment : Moment) (order : List (UInt64 × List HeaderInfo))
    (succeeds : UInt64 → Bool) : Advances node (node.resolveFork moment order succeeds) := by
  obtain ⟨hsame, habove⟩ :=
    @ForkDetector.checkFork_above node.detector moment order h.rollBackNonce
  unfold Node.resolveFork
  rcases hresult : node.detector.checkFork moment order with ⟨info, detector⟩
  rw [hresult] at hsame habove
  have hsound := h.of_sameCheckpoints hsame
  have hfinal : node.finalNonce = Node.finalNonce { node with detector } :=
    congrArg CheckpointInfo.nonce hsame.final.symm
  have hcarry : ∀ result, Advances { node with detector } result → Advances node result := by
    rintro result ⟨hresult, hle, hrolled⟩
    exact ⟨hresult, by rwa [hfinal], by rwa [hfinal]⟩
  dsimp only at habove ⊢
  split
  · exact ⟨hsound, by grind, nofun⟩
  split
  · exact hcarry _ (hsound.rollBackOneBlockForced moment succeeds)
  next hforced =>
  have hfork : Node.finalNonce { node with detector } < info.nonce := by
    rw [← hfinal]
    exact habove.resolve_left hforced
  have hrolled : Advances { node with detector }
      (Node.rollBack true info.nonce succeeds { node with detector }) := hsound.rollBack fun _ => hfork
  have hreset : ∀ bfd, ForkDetector.SameCheckpoints bfd bfd.resetProbableHighestNonce :=
    fun _ => ⟨rfl, rfl, rfl⟩
  split
  · exact hcarry _ (hrolled.mapDetector hreset)
  · exact hcarry _ hrolled

theorem commitBlock {moment : Moment} {header : Header} {hash : Bytes}
    (hextends : header.nonce.toNat = node.headNonce.toNat + 1) :
    Advances node ([], node.commitBlock moment header hash) ∧
      (node.commitBlock moment header hash).finalNonce <
        (node.commitBlock moment header hash).headNonce := by
  have hhead : (node.commitBlock moment header hash).headNonce = header.nonce := rfl
  have hchain : (node.addHeader moment header hash .BHProcessed).chain = node.chain := by
    rcases addHeader_cases node moment header hash .BHProcessed with heq | ⟨-, heq⟩ <;> rw [heq]
  have hlast := h.final_le_last
  have hahead := h.ahead _ h.lastCheckpoint_mem
  have hfinal := h.final_le_head
  -- the new head is above everything that was there
  have hnext : ∀ nonce : UInt64, nonce ≤ node.headNonce → nonce < header.nonce := by
    intro nonce hle
    rw [le_iff_toNat_le] at hle
    rw [lt_iff_toNat_lt]
    omega
  rw [hhead]
  rcases @addHeader node hash h moment header .BHProcessed fun _ => hextends with
    ⟨hsame, hsound⟩ | ⟨-, hnew, hsound⟩
  · have hsound' : Sound (node.commitBlock moment header hash) := by
      refine ⟨hsound.rollBackNonce, hsound.final, hsound.behind, ?_, ?_⟩
      · intro checkpoint hcheckpoint
        have hle := hsound.ahead checkpoint hcheckpoint
        have hlt := hnext checkpoint.nonce (by unfold Node.headNonce at hle ⊢; rwa [hchain] at hle)
        rw [hhead]
        grind
      · refine ⟨?_, hsound.chain⟩
        rw [hchain]
        exact hextends
    have hcommit : (node.commitBlock moment header hash).finalNonce = node.finalNonce := hsame
    exact ⟨⟨hsound', by grind, nofun⟩, by rw [hcommit]; exact hnext _ hfinal⟩
  · have hsound' : Sound (node.commitBlock moment header hash) := by
      dsimp only [Node.commitBlock]
      rw [hchain]
      exact hsound
    have hcommit : (node.commitBlock moment header hash).finalNonce =
        node.detector.lastCheckpoint.nonce := hnew
    exact ⟨⟨hsound', by rw [hcommit]; exact hlast, nofun⟩, by rw [hcommit]; exact hnext _ hahead⟩

theorem step {step : SyncStep} (hallows : node.Allows step) : Advances node (node.step step) := by
  cases step with
  | process moment header hash => exact (h.commitBlock hallows).1
  | receive moment header hash state =>
    rcases @addHeader node hash h moment header state fun hstate => absurd hstate hallows with
      ⟨hfinal, hsound⟩ | ⟨hstate, -⟩
    · refine ⟨hsound, ?_, nofun⟩
      change _ ≤ (node.addHeader moment header hash state).finalNonce
      rw [hfinal]
      exact UInt64.le_refl _
    · exact absurd hstate hallows
  | checkFork moment order succeeds => exact h.resolveFork moment order succeeds
  | rollBackOneBlock moment succeeds => exact h.rollBackOneBlockForced moment succeeds

theorem run_sound {steps : List SyncStep} (hallows : node.AllowsAll steps) :
    Advances node (node.run steps) := by
  induction steps generalizing node with
  | nil => exact ⟨h, UInt64.le_refl _, nofun⟩
  | cons step steps ih =>
    obtain ⟨hsound, hfinal, habove⟩ := h.step hallows.1
    obtain ⟨hsound', hfinal', habove'⟩ := ih hsound hallows.2
    refine ⟨hsound', UInt64.le_trans hfinal hfinal', ?_⟩
    intro nonce hnonce
    rcases mem_append.1 hnonce with hnonce | hnonce
    · exact habove nonce hnonce
    · exact UInt64.lt_of_le_of_lt hfinal (habove' nonce hnonce)

end

theorem genesis (genesisTime : Int64) : Sound { detector := { genesisTime } } := by
  refine ⟨rfl, mem_cons_self, ?_, ?_, trivial⟩ <;>
  · intro checkpoint hcheckpoint
    rw [mem_singleton.1 hcheckpoint]
    exact UInt64.le_refl 0

end Sound

/-! ## Runs from the genesis -/

theorem run_append (node : Node) (before after : List SyncStep) :
    (node.run (before ++ after)).2 = ((node.run before).2.run after).2 := by
  induction before generalizing node with
  | nil => rfl
  | cons step before ih => exact ih (node.step step).2

theorem allowsAll_append {node : Node} {before after : List SyncStep} :
    node.AllowsAll (before ++ after) ↔
      node.AllowsAll before ∧ (node.run before).2.AllowsAll after := by
  induction before generalizing node with
  | nil => exact ⟨fun h => ⟨trivial, h⟩, fun h => h.2⟩
  | cons step before ih =>
    change _ ∧ (node.step step).2.AllowsAll (before ++ after) ↔
      (_ ∧ (node.step step).2.AllowsAll before) ∧ ((node.step step).2.run before).2.AllowsAll after
    rw [ih, and_assoc]

/-- **Finality is never undone.**  Along every run from the genesis, at any point of it: the final
nonce is at most that of the last checkpoint and at most that of the head, and lower than that of the
head if the last step processed a block; whatever follows does not decrease it, and rolls back no
block at or below it. -/
theorem finality_never_undone (genesisTime : Int64) (before after : List SyncStep)
    (h : Node.AllowsAll { detector := { genesisTime } } (before ++ after)) :
    let node := (Node.run { detector := { genesisTime } } before).2
    node.finalNonce ≤ node.detector.lastCheckpoint.nonce ∧
    node.finalNonce ≤ node.headNonce ∧
    (∀ steps moment header hash, before = steps ++ [.process moment header hash] →
      node.finalNonce < node.headNonce) ∧
    node.finalNonce ≤ (node.run after).2.finalNonce ∧
    ∀ nonce ∈ (node.run after).1, node.finalNonce < nonce := by
  intro node
  obtain ⟨hbefore, hafter⟩ := allowsAll_append.1 h
  have hsound : Sound node := ((Sound.genesis genesisTime).run_sound hbefore).sound
  obtain ⟨-, hfinal, habove⟩ := hsound.run_sound hafter
  refine ⟨hsound.final_le_last, hsound.final_le_head, ?_, hfinal, habove⟩
  rintro steps moment header hash rfl
  obtain ⟨hsteps, hlast⟩ := allowsAll_append.1 hbefore
  have hprevious := ((Sound.genesis genesisTime).run_sound hsteps).sound
  have hcommit : node = ((Node.run { detector := { genesisTime } } steps).2).commitBlock moment header
      hash := run_append _ steps [.process moment header hash]
  rw [hcommit]
  exact (hprevious.commitBlock hlast.1).2

/-- A slot in which everything is in order. -/
def quietMoment (slotIndex : Int) : Moment where
  slotIndex := slotIndex
  now := 0
  isBlackListed _ := false
  genesisTimeFromHeader _ := 0

/-- The block of a slot, when no slot was missed. -/
def blockOf (slot : UInt64) : Header where
  epoch := 0
  nonce := slot
  slot := slot
  timestamp := 0
  parentHash := []

/-- Two blocks are processed and the second is rolled back. -/
def twoBlocksOneBack : List SyncStep :=
  [.process (quietMoment 1) (blockOf 1) [1], .process (quietMoment 2) (blockOf 2) [2],
    .rollBackOneBlock (quietMoment 3) fun _ => true]

theorem finality_never_undone_two_blocks :
    let node := (Node.run { detector := { genesisTime := 0 } } twoBlocksOneBack).2
    node.finalNonce ≤ node.detector.lastCheckpoint.nonce ∧ node.finalNonce ≤ node.headNonce ∧
      ∀ nonce ∈ (node.run [.rollBackOneBlock (quietMoment 4) fun _ => true]).1,
        node.finalNonce < nonce := by
  have hallows : Node.AllowsAll { detector := { genesisTime := 0 } }
      (twoBlocksOneBack ++ [.rollBackOneBlock (quietMoment 4) fun _ => true]) :=
    ⟨rfl, rfl, trivial, trivial, trivial⟩
  obtain ⟨hlast, hhead, -, -, habove⟩ := finality_never_undone 0 _ _ hallows
  exact ⟨hlast, hhead, habove⟩

/-- After two blocks were processed and one was rolled back, the head is the final block. -/
theorem rolled_back_to_final :
    Node.AllowsAll { detector := { genesisTime := 0 } } twoBlocksOneBack ∧
      let node := (Node.run { detector := { genesisTime := 0 } } twoBlocksOneBack).2
      node.finalNonce = 1 ∧ node.headNonce = 1 :=
  ⟨⟨rfl, rfl, trivial, trivial⟩, by decide +kernel, by decide +kernel⟩

/-! ## The headers of a run -/

/-- A nonce and a slot that `AddHeader` lets in. -/
def Timely (nonce slot : UInt64) : Prop := nonce ≤ slot ∧ slot.toNat < 2 ^ 63 - 1

namespace ForkDetector

variable {bfd : ForkDetector}

/-- Everything the detector keeps was let in. -/
structure Admits (bfd : ForkDetector) : Prop where
  headers : ∀ nonce, ∀ info ∈ bfd.headersAt nonce, info.nonce = nonce ∧ Timely nonce info.slot
  checkpoint : ∀ checkpoint ∈ bfd.checkpoint, Timely checkpoint.nonce checkpoint.slot
  final : Timely bfd.finalCheckpoint.nonce bfd.finalCheckpoint.slot

/-- Going through the map of headers, entry by entry, and keeping some of each. -/
theorem mem_of_filterMapWithKey {keep : UInt64 → List HeaderInfo → Option (List HeaderInfo)}
    (hkeep : ∀ nonce infos kept, keep nonce infos = some kept → ∀ info ∈ kept, info ∈ infos)
    {nonce : UInt64} {info : HeaderInfo}
    (h : info ∈ ((bfd.headers.filterMapWithKey keep).lookup nonce).getD []) :
    info ∈ bfd.headersAt nonce := by
  rw [Finmap.lookup_filterMapWithKey] at h
  unfold headersAt
  cases hlookup : bfd.headers.lookup nonce with
  | none =>
    rw [hlookup] at h
    exact h
  | some infos =>
    rw [hlookup, Option.bind_some] at h
    cases hkept : keep nonce infos with
    | none =>
      rw [hkept] at h
      cases h
    | some kept =>
      rw [hkept] at h
      exact hkeep nonce infos kept hkept info h

theorem mem_of_nonEmpty {infos kept : List HeaderInfo} {p : HeaderInfo → Bool}
    (h : nonEmpty (infos.filter p) = some kept) : ∀ info ∈ kept, info ∈ infos := by
  unfold nonEmpty at h
  split at h
  · cases h
  · cases h
    exact fun info hinfo => (mem_filter.1 hinfo).1

section
variable (h : bfd.Admits)
include h

theorem Admits.removePastOrInvalidRecords : bfd.removePastOrInvalidRecords.Admits := by
  refine ⟨fun nonce info hinfo => h.headers nonce info ?_,
    fun checkpoint hmem => h.checkpoint checkpoint (mem_filter.1 hmem).1, h.final⟩
  have hpast : info ∈ bfd.removePastHeaders.headersAt nonce :=
    mem_of_filterMapWithKey (fun _ _ _ hkept => mem_of_nonEmpty hkept) hinfo
  refine mem_of_filterMapWithKey (fun nonce infos kept hkept => ?_) hpast
  split at hkept
  · cases hkept
  · cases hkept
    exact fun _ h => h

theorem Admits.removeHeader (nonce : UInt64) (hash : Bytes) :
    (bfd.removeHeader nonce hash).Admits := by
  refine ⟨fun nonce' info hinfo => h.headers nonce' info ?_,
    fun checkpoint hmem => h.checkpoint checkpoint (mem_filter.1 hmem).1, h.final⟩
  let preserved := (bfd.headersAt nonce).filter fun hdrInfo =>
    ¬ (hdrInfo.state ≠ .BHNotarized ∧ hdrInfo.hash = hash)
  have hheaders : (bfd.removeHeader nonce hash).headers =
      if preserved = [] then bfd.headers.erase nonce else bfd.headers.insert nonce preserved := rfl
  unfold headersAt at hinfo
  rw [hheaders] at hinfo
  by_cases hnonce : nonce' = nonce
  · subst hnonce
    by_cases hempty : preserved = []
    · rw [if_pos hempty, Finmap.lookup_erase] at hinfo
      cases hinfo
    · rw [if_neg hempty, Finmap.lookup_insert] at hinfo
      exact (mem_filter.1 hinfo).1
  · by_cases hempty : preserved = []
    · rwa [if_pos hempty, Finmap.lookup_erase_ne hnonce] at hinfo
    · rwa [if_neg hempty, Finmap.lookup_insert_of_ne _ hnonce] at hinfo

theorem Admits.resetProbableHighestNonce : bfd.resetProbableHighestNonce.Admits := by
  refine ⟨fun nonce info hinfo => h.headers nonce info ?_, h.checkpoint, h.final⟩
  refine mem_of_filterMapWithKey (fun nonce infos kept hkept => ?_) hinfo
  split at hkept
  · cases hkept
    exact fun _ h => h
  · exact mem_of_nonEmpty hkept

theorem Admits.checkFork (moment : Moment)
    (order : List (UInt64 × List HeaderInfo)) : (bfd.checkFork moment order).2.Admits := by
  obtain ⟨tmpStuck, heq⟩ := bfd.isConsensusStuck_eq moment
  unfold ForkDetector.checkFork
  rcases hresult : bfd.isConsensusStuck moment with ⟨stuck, after⟩
  rw [hresult] at heq
  obtain rfl : after = { bfd with tmpStuck } := heq
  dsimp only
  split
  · exact ⟨h.headers, h.checkpoint, h.final⟩
  · split <;> exact ⟨h.headers, h.checkpoint, h.final⟩

theorem Admits.append (info : HeaderInfo) (htimely : Timely info.nonce info.slot) :
    (bfd.append info).2.Admits := by
  unfold ForkDetector.append
  dsimp only
  split
  · exact h
  refine ⟨fun nonce other hother => ?_, h.checkpoint, h.final⟩
  unfold headersAt at hother
  by_cases hnonce : nonce = info.nonce
  · subst hnonce
    rw [Finmap.lookup_insert, Option.getD_some, mem_append, mem_singleton] at hother
    rcases hother with hold | rfl
    · exact h.headers _ other hold
    · exact ⟨rfl, htimely⟩
  · rw [Finmap.lookup_insert_of_ne _ hnonce] at hother
    exact h.headers nonce other hother

variable {header : Header}

/-- The last checkpoint becomes final, and the processed block is the new one. -/
theorem Admits.doJobOnBHProcessed (htimely : Timely header.nonce header.slot) (hash : Bytes) :
    (bfd.doJobOnBHProcessed header hash).Admits := by
  have hadded : (bfd.setFinalToLastCheckpoint.addCheckpoint
      ⟨header.nonce, header.slot, hash⟩).Admits := by
    refine ⟨h.headers, ?_, ?_⟩
    · intro checkpoint hcheckpoint
      rcases mem_append.1 hcheckpoint with hold | hnew
      · exact h.checkpoint checkpoint hold
      · rw [mem_singleton.1 hnew]
        exact htimely
    · change Timely bfd.lastCheckpoint.nonce bfd.lastCheckpoint.slot
      unfold lastCheckpoint
      cases hlast : bfd.checkpoint.getLast? with
      | none => exact ⟨UInt64.le_refl 0, by decide⟩
      | some checkpoint => exact h.checkpoint checkpoint (mem_of_getLast? hlast)
  exact hadded.removePastOrInvalidRecords

/-- A valid header is timely, once the final checkpoint is and the slots are not the last ones. -/
theorem Admits.timely_of_valid {moment : Moment} (hslot : moment.slotIndex + 1 < 2 ^ 63 - 1)
    (hvalid : bfd.checkBlockBasicValidity moment header = .ok ()) :
    Timely header.nonce header.slot := by
  obtain ⟨hfinal, hfinalSlot⟩ := h.final
  simp only [checkBlockBasicValidity, bind_eq_ok, reject_eq_ok, exists_const] at hvalid
  obtain ⟨-, -, -, -, hnext, hdif⟩ := hvalid
  have hnext : header.slot.toNat ≤ (safeI64ToU64 (moment.slotIndex + 1)).toNat :=
    le_iff_toNat_le.1 (by grind)
  have hbound : (safeI64ToU64 (moment.slotIndex + 1)).toNat = (moment.slotIndex + 1).toNat := by
    unfold safeI64ToU64
    rw [toNat_ofNat', Nat.mod_eq_of_lt (by omega)]
  rw [le_iff_toNat_le] at hfinal
  unfold safeU64ToI64 at hdif
  refine ⟨le_iff_toNat_le.2 ?_, ?_⟩ <;> omega

theorem Admits.processReceivedBlock (moment : Moment) (htimely : Timely header.nonce header.slot)
    (hash : Bytes) (state : BlockHeaderState) :
    (bfd.processReceivedBlock moment header hash state).Admits := by
  have hhighest : (bfd.setHighestNonceReceived header.nonce).Admits := by
    unfold setHighestNonceReceived
    split
    · exact h
    · exact ⟨h.headers, h.checkpoint, h.final⟩
  unfold ForkDetector.processReceivedBlock
  generalize bfd.setHighestNonceReceived header.nonce = highest at hhighest ⊢
  dsimp only
  split
  · exact hhighest
  generalize (if isHeaderReceivedTooLate moment header state then
    BlockHeaderState.BHReceivedTooLate else state) = stored
  have hinfo := hhighest.append ⟨header.epoch, header.nonce, header.slot, hash, stored⟩ htimely
  rcases hresult : highest.append ⟨header.epoch, header.nonce, header.slot, hash, stored⟩ with
    ⟨appended, after⟩
  rw [hresult] at hinfo
  split
  · exact hinfo
  · split
    · have hjob := hinfo.doJobOnBHProcessed htimely hash
      exact ⟨hjob.headers, hjob.checkpoint, hjob.final⟩
    · exact ⟨hinfo.headers, hinfo.checkpoint, hinfo.final⟩

end

end ForkDetector

namespace SyncStep

def moment : SyncStep → Moment
  | .process moment _ _ | .receive moment _ _ _ | .checkFork moment _ _
  | .rollBackOneBlock moment _ => moment

end SyncStep

namespace Node

open ForkDetector (Admits)

variable {node : Node}

theorem rollBackAlong_admits (revertUsingForkNonce : Bool) (forkNonce : UInt64)
    (succeeds : UInt64 → Bool) (chain : List (UInt64 × Bytes)) {detector : ForkDetector}
    (h : detector.Admits) :
    (rollBackAlong revertUsingForkNonce forkNonce succeeds chain detector).2.detector.Admits := by
  induction chain generalizing detector with
  | nil => exact h
  | cons block chain ih =>
    obtain ⟨nonce, hash⟩ := block
    have hremoved := h.removeHeader nonce hash
    unfold rollBackAlong
    split
    · exact h
    split
    · exact h
    split
    · exact h
    split
    · exact ih hremoved
    · exact hremoved

section
variable (h : node.detector.Admits)
include h

theorem rollBackOneBlockForced_admits (moment : Moment) (succeeds : UInt64 → Bool) :
    (node.rollBackOneBlockForced moment succeeds).2.detector.Admits := by
  obtain ⟨hheaders, hcheckpoint, hfinal⟩ :=
    (rollBackAlong_admits false 0 succeeds node.chain h).resetProbableHighestNonce
  exact ⟨hheaders, hcheckpoint, hfinal⟩

theorem resolveFork_admits (moment : Moment) (order : List (UInt64 × List HeaderInfo))
    (succeeds : UInt64 → Bool) :
    (node.resolveFork moment order succeeds).2.detector.Admits := by
  have hchecked := h.checkFork moment order
  unfold resolveFork
  rcases hresult : node.detector.checkFork moment order with ⟨info, detector⟩
  rw [hresult] at hchecked
  dsimp only at hchecked ⊢
  have hrolled := rollBackAlong_admits true info.nonce succeeds node.chain hchecked
  split
  · exact hchecked
  split
  · exact @rollBackOneBlockForced_admits { detector, chain := node.chain } hchecked moment succeeds
  split
  · exact hrolled.resetProbableHighestNonce
  · exact hrolled

theorem addHeader_admits {moment : Moment} (hslot : moment.slotIndex + 1 < 2 ^ 63 - 1)
    (header : Header) (hash : Bytes)
    (state : BlockHeaderState) : (node.addHeader moment header hash state).detector.Admits := by
  rcases Sound.addHeader_cases node moment header hash state with heq | ⟨hvalid, heq⟩ <;> rw [heq]
  · exact h
  · exact h.processReceivedBlock moment (h.timely_of_valid hslot hvalid) hash state

theorem step_admits {step : SyncStep}
    (hslot : step.moment.slotIndex + 1 < 2 ^ 63 - 1) : (node.step step).2.detector.Admits := by
  cases step with
  | process moment header hash => exact addHeader_admits h hslot header hash .BHProcessed
  | receive moment header hash state => exact addHeader_admits h hslot header hash state
  | checkFork moment order succeeds => exact resolveFork_admits h moment order succeeds
  | rollBackOneBlock moment succeeds => exact rollBackOneBlockForced_admits h moment succeeds

theorem run_admits {steps : List SyncStep}
    (hslot : ∀ step ∈ steps, step.moment.slotIndex + 1 < 2 ^ 63 - 1) :
    (node.run steps).2.detector.Admits := by
  induction steps generalizing node with
  | nil => exact h
  | cons step steps ih =>
    exact ih (step_admits h (hslot step mem_cons_self)) fun later hlater =>
      hslot later (mem_cons_of_mem step hlater)

end

end Node

/-- **Fork choice can compare whatever a run has let in.**  While the slots of a run from the genesis
are not the last ones, every header is filed at its own nonce, which is at most its slot. -/
theorem run_admitted (genesisTime : Int64) (steps : List SyncStep)
    (hslot : ∀ step ∈ steps, step.moment.slotIndex + 1 < 2 ^ 63 - 1) (nonce : UInt64) :
    ∀ info ∈ (Node.run { detector := { genesisTime } } steps).2.detector.headersAt nonce,
      info.Admitted nonce := by
  have hgenesis : ForkDetector.Admits { genesisTime } := by
    have hzero : Timely 0 0 := ⟨UInt64.le_refl 0, by decide⟩
    refine ⟨nofun, ?_, hzero⟩
    intro checkpoint hcheckpoint
    rw [mem_singleton.1 hcheckpoint]
    exact hzero
  intro info hinfo
  obtain ⟨hnonce, hle, hbound⟩ :=
    (Node.run_admits hgenesis hslot : ForkDetector.Admits _).headers nonce info hinfo
  refine ⟨hnonce, hle, lt_iff_toNat_lt.2 ?_⟩
  have hmax : maxUint64.toNat = 2 ^ 64 - 1 := rfl
  omega

theorem run_admitted_two_blocks :
    let detector := (Node.run { detector := { genesisTime := 0 } } twoBlocksOneBack).2.detector
    (detector.headersAt 1).length = 1 ∧ ∀ info ∈ detector.headersAt 1, info.Admitted 1 :=
  ⟨by decide, run_admitted 0 twoBlocksOneBack (by decide) 1⟩

end KleverGo.Sync
