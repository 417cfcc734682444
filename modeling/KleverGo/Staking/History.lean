import KleverGo.Staking.Claim
import KleverGo.Lib.Replay

/-!
# The stake history of a bucket

A freeze rewrites the bucket of a custom asset and keeps, in its history, what had been staked
before; an unfreeze only marks it.  The module shows that this compressed record prices every pool
as the full log of freezes and unfreezes would.

* `Tracks`: what bucket and log have to do with each other.
* `Tracks.freeze`, `Tracks.unfreeze`, `Tracks.advance`: every operation keeps it.
-/

namespace KleverGo.Staking

open List Option

/-! ## The log -/

inductive StakeMove where
  | freeze (value : Int64)
  | unfreeze
  deriving DecidableEq, Repr

/-- What a log of changes leaves: the value of the bucket, and whether it is staked. -/
structure Replayed where
  value : Int64
  staked : Bool
  deriving DecidableEq, Repr

namespace Replayed

def start : Replayed := ⟨0, false⟩

def apply (r : Replayed) : StakeMove → Replayed
  | .freeze value => ⟨r.value + value, true⟩
  | .unfreeze => { r with staked := false }

def stake (r : Replayed) : Int64 := if r.staked then r.value else 0

end Replayed

abbrev StakeLog := List (UInt32 × StakeMove)

/-- The stake a pool is earned by: the value of the bucket after exactly the changes made at
epochs before it. -/
def replayedStake (log : StakeLog) (fprEpoch : UInt32) : Int64 :=
  (replayBefore Replayed.apply .start log fprEpoch).stake

/-! ## The bucket -/

/-- A segment of the history covers a pool epoch. -/
def covers (fprEpoch : UInt32) (segment : StakeSegment) : Bool :=
  segment.stakedEpoch < fprEpoch && fprEpoch ≤ segment.throughEpoch

variable {fc : ForkController}

theorem stakeUsed_eq (h3 : fc.fixAuditChangesV3 = true) (h5 : fc.fixAuditChangesV5 = true)
    (b : UserBucket) (e : UInt32) :
    stakeUsed fc b e =
      if b.unstakedEpoch ≠ DefaultUnstakedEpoch ∧ b.unstakedEpoch < e then none
      else if b.stakedEpoch < e then some b.value
      else (b.history.find? (covers e)).map (·.value) := by
  have hcov : (fun segment : StakeSegment =>
      decide (segment.stakedEpoch < e) && decide (e ≤ segment.throughEpoch)) = covers e := rfl
  simp only [stakeUsed, bucketStakeAt, bucketEligibleForFPR, h3, h5, Bool.not_true,
    Bool.false_eq_true, if_false, if_true, hcov]
  by_cases hd : b.unstakedEpoch = DefaultUnstakedEpoch
  · simp [hd]
  by_cases hu : b.unstakedEpoch < e
  · have hle : ¬ e ≤ b.unstakedEpoch := by grind
    simp [hd, hu, hle]
  · have hle : e ≤ b.unstakedEpoch := by grind
    simp [hd, hu, hle]

theorem find_covers_none {history : List StakeSegment} {e : UInt32}
    (h : ∀ segment ∈ history, segment.throughEpoch < e) : history.find? (covers e) = none := by
  rw [find?_eq_none]
  intro segment hs
  have := h segment hs
  simp only [covers, Bool.and_eq_true, decide_eq_true_eq, not_and]
  grind

/-- Dropping what ends at the cursor or before does not change what is found after it. -/
theorem find_covers_filter (history : List StakeSegment) {e cursor : UInt32} (he : cursor < e) :
    (history.filter fun segment => cursor < segment.throughEpoch).find? (covers e) =
      history.find? (covers e) := by
  rw [find?_filter]
  congr 1
  funext segment
  simp only [covers]
  by_cases hc : e ≤ segment.throughEpoch
  · have : cursor < segment.throughEpoch := by grind
    simp [hc, this]
  · simp [hc]

/-- The last epoch the stake of a bucket was live in, if it is replaced at `epoch`. -/
def liveThrough (b : UserBucket) (epoch : UInt32) : UInt32 :=
  if b.unstakedEpoch ≠ DefaultUnstakedEpoch then b.unstakedEpoch else epoch

theorem stakeHistoryAfterFreeze_eq (b : UserBucket) (epoch cursor : UInt32) :
    stakeHistoryAfterFreeze b epoch cursor =
      (b.history.filter fun segment => cursor < segment.throughEpoch) ++
        if b.stakedEpoch < liveThrough b epoch ∧ cursor < liveThrough b epoch then
          [⟨b.stakedEpoch, liveThrough b epoch, b.value⟩]
        else [] := by
  unfold stakeHistoryAfterFreeze
  change (if b.stakedEpoch < liveThrough b epoch ∧ cursor < liveThrough b epoch then _ else _) = _
  split
  · rfl
  · rw [append_nil]

/-- What `stakeHistoryAfterFreeze` finds after the cursor: the old history, and the stake that is
being replaced over the epochs in which it was live. -/
theorem find_stakeHistoryAfterFreeze (b : UserBucket) {epoch cursor e : UInt32} (he : cursor < e) :
    (stakeHistoryAfterFreeze b epoch cursor).find? (covers e) =
      (b.history.find? (covers e)).or
        (if b.stakedEpoch < e ∧ e ≤ liveThrough b epoch then
          some ⟨b.stakedEpoch, liveThrough b epoch, b.value⟩
        else none) := by
  rw [stakeHistoryAfterFreeze_eq, find?_append, find_covers_filter _ he]
  congr 1
  generalize liveThrough b epoch = through
  split
  · by_cases h : b.stakedEpoch < e ∧ e ≤ through
    · simp [covers, h]
    · rw [if_neg h, find?_eq_none]
      intro segment hs
      rw [mem_singleton.1 hs]
      simpa [covers] using h
  · rename_i hne
    have h : ¬ (b.stakedEpoch < e ∧ e ≤ through) := by
      rintro ⟨h1, h2⟩
      apply hne
      constructor <;> grind
    rw [if_neg h, find?_nil]

/-! ## Bucket and log -/

/-- **The bucket stands for the log**, at epoch `now` and with the claim cursor at `cursor`: it
prices every pool after the cursor as the log does.  An unfreeze in the very last epoch cannot be
told from none, but no pool comes after it. -/
structure Tracks (fc : ForkController) (log : StakeLog) (now cursor : UInt32)
    (bucket : Option UserBucket) : Prop where
  past : ∀ e ∈ log, e.1 ≤ now
  absent : bucket = none → log = []
  value : ∀ b, bucket = some b → (replayAll Replayed.apply .start log).value = b.value
  staked : ∀ b, bucket = some b → now < DefaultUnstakedEpoch →
    ((replayAll Replayed.apply .start log).staked = true ↔ b.unstakedEpoch = DefaultUnstakedEpoch)
  began : ∀ b, bucket = some b → b.stakedEpoch ≤ now
  ended : ∀ b, bucket = some b → b.unstakedEpoch = DefaultUnstakedEpoch ∨
    b.stakedEpoch ≤ b.unstakedEpoch ∧ b.unstakedEpoch ≤ now
  segments : ∀ b, bucket = some b → ∀ segment ∈ b.history, segment.throughEpoch ≤ b.stakedEpoch
  used : ∀ e, cursor < e → (bucket.bind (stakeUsed fc · e)).getD 0 = replayedStake log e

namespace Tracks

variable {log : StakeLog} {now cursor epoch : UInt32} {bucket : Option UserBucket}

theorem nil (fc : ForkController) (now cursor : UInt32) : Tracks fc [] now cursor none where
  past := by simp
  absent _ := rfl
  value := by simp
  staked := by simp
  began := by simp
  ended := by simp
  segments := by simp
  used e _ := rfl

section
variable (h : Tracks fc log now cursor bucket) (hnow : now ≤ epoch)
include h hnow

theorem advance {cursor' : UInt32}
    (hcursor : cursor ≤ cursor') : Tracks fc log epoch cursor' bucket where
  past e he := by have := h.past e he; grind
  absent := h.absent
  value := h.value
  staked b hb hlt := h.staked b hb (by grind)
  began b hb := by have := h.began b hb; grind
  ended b hb := by have := h.ended b hb; grind
  segments := h.segments
  used e he := h.used e (by grind)

/-- What a bucket that has to do with the log replays to at a later epoch. -/
theorem replayBefore_append {e : UInt32} (he : epoch < e) (move : StakeMove) :
    replayedStake (log ++ [(epoch, move)]) e =
      ((replayAll Replayed.apply .start log).apply move).stake := by
  rw [replayedStake, KleverGo.replayBefore_append _ _ (fun x hx => ?_) he]
  have := h.past x hx
  grind

theorem past_append (move : StakeMove) : ∀ e ∈ log ++ [(epoch, move)], e.1 ≤ epoch := by
  intro e he
  rcases mem_append.1 he with he | he
  · have := h.past e he
    grind
  · rw [mem_singleton.1 he]
    grind

end

section
variable (h3 : fc.fixAuditChangesV3 = true) (h5 : fc.fixAuditChangesV5 = true)
include h3 h5

/-- Before a freeze, the history it stores and the bucket it replaces price a pool alike. -/
theorem used_frozen (h : Tracks fc log now cursor bucket) {b : UserBucket} (hb : bucket = some b)
    {e : UInt32} (hcursor : cursor < e) (hle : e ≤ epoch) :
    ((stakeHistoryAfterFreeze b epoch cursor).find? (covers e)).map (·.value) =
      stakeUsed fc b e := by
  have hseg := h.segments b hb
  have hend := h.ended b hb
  rw [find_stakeHistoryAfterFreeze b hcursor, stakeUsed_eq h3 h5]
  by_cases hs : b.stakedEpoch < e
  · -- the history ends where the replaced stake begins
    rw [find_covers_none fun segment hm => by have := hseg segment hm; grind, none_or]
    simp only [liveThrough]
    by_cases hd : b.unstakedEpoch = DefaultUnstakedEpoch
    · simp [hd, hs, hle]
    by_cases hu : b.unstakedEpoch < e
    · have hnle : ¬ e ≤ b.unstakedEpoch := by grind
      simp [hd, hu, hnle]
    · have hle' : e ≤ b.unstakedEpoch := by grind
      simp [hd, hu, hs, hle']
  · have hlive : ¬ (b.unstakedEpoch ≠ DefaultUnstakedEpoch ∧ b.unstakedEpoch < e) := by grind
    rw [if_neg hlive, if_neg hs, if_neg fun hc => hs hc.1, or_none]

theorem freeze (h : Tracks fc log now cursor bucket) (opts : FreezeOptions)
    (hnow : now ≤ opts.blockEpoch) (hkeep : opts.keepStakeHistory = true) (value : Int64) :
    Tracks fc (log ++ [(opts.blockEpoch, .freeze value)]) opts.blockEpoch cursor
      (some (frozenBucket opts value cursor bucket)) where
  past := h.past_append hnow _
  absent hn := by cases hn
  value b hb := by
    cases hb
    rw [replayAll_append]
    cases bucket with
    | none => rw [h.absent rfl]; rfl
    | some old => rw [Replayed.apply, h.value old rfl]; rfl
  staked b hb _ := by
    cases hb
    rw [replayAll_append]
    simp [Replayed.apply, frozenBucket]
  began b hb := by
    cases hb
    exact UInt32.le_refl _
  ended b hb := by
    cases hb
    exact .inl rfl
  segments b hb segment hs := by
    cases hb
    cases bucket with
    | none => simp [frozenBucket, hkeep] at hs
    | some old =>
      have hbegan := h.began old rfl
      have hended := h.ended old rfl
      change segment.throughEpoch ≤ opts.blockEpoch
      simp only [frozenBucket, hkeep, if_true, elim_some, stakeHistoryAfterFreeze_eq] at hs
      rcases mem_append.1 hs with hm | hm
      · have := h.segments old rfl segment (mem_filter.1 hm).1
        grind
      split at hm
      · rw [mem_singleton.1 hm]
        simp only [liveThrough]
        split <;> grind
      · cases hm
  used e he := by
    rw [bind_some, stakeUsed_eq h3 h5, if_neg fun hc => hc.1 rfl]
    by_cases hlt : opts.blockEpoch < e
    · rw [if_pos (show (frozenBucket opts value cursor bucket).stakedEpoch < e from hlt),
        h.replayBefore_append hnow hlt]
      cases bucket with
      | none => rw [h.absent rfl]; rfl
      | some old =>
        rw [Replayed.apply, h.value old rfl]
        rfl
    · rw [if_neg (show ¬ (frozenBucket opts value cursor bucket).stakedEpoch < e from hlt),
        replayedStake, replayBefore_append_late _ _ hlt]
      change _ = replayedStake log e
      rw [← h.used e he]
      cases bucket with
      | none => simp [frozenBucket, hkeep]
      | some old =>
        rw [bind_some, ← h.used_frozen h3 h5 rfl he (UInt32.not_lt.1 hlt)]
        simp only [frozenBucket, hkeep, if_true, elim_some]

theorem unfreeze {b : UserBucket} (h : Tracks fc log now cursor (some b)) (hnow : now ≤ epoch)
    (hstaked : b.unstakedEpoch = DefaultUnstakedEpoch) :
    Tracks fc (log ++ [(epoch, .unfreeze)]) epoch cursor
      (some { b with unstakedEpoch := epoch }) where
  past := h.past_append hnow _
  absent hn := by cases hn
  value b' hb := by
    cases hb
    rw [replayAll_append]
    exact h.value b rfl
  staked b' hb hlt := by
    cases hb
    rw [replayAll_append]
    simp only [Replayed.apply, Bool.false_eq_true, false_iff]
    grind
  began b' hb := by
    cases hb
    have := h.began b rfl
    grind
  ended b' hb := by
    cases hb
    have := h.began b rfl
    grind
  segments b' hb := by
    cases hb
    exact h.segments b rfl
  used e he := by
    rw [bind_some, stakeUsed_eq h3 h5]
    simp only
    by_cases hlt : epoch < e
    · have hne : epoch ≠ DefaultUnstakedEpoch := by
        simp only [DefaultUnstakedEpoch]
        grind
      rw [if_pos ⟨hne, hlt⟩, h.replayBefore_append hnow hlt]
      rfl
    · rw [if_neg fun hc => hlt hc.2, replayedStake, replayBefore_append_late _ _ hlt]
      change _ = replayedStake log e
      have hlive : ¬ (b.unstakedEpoch ≠ DefaultUnstakedEpoch ∧ b.unstakedEpoch < e) :=
        fun hc => hc.1 hstaked
      rw [← h.used e he, bind_some, stakeUsed_eq h3 h5, if_neg hlive]

end

end Tracks

end KleverGo.Staking
