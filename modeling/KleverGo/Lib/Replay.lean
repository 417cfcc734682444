import Mathlib

/-!
# Replaying a log

A log lists what happened and when.  `replayBefore step init log t` is the state obtained from the
entries that happened strictly before `t`.  An entry at the end of the log does not change what is
replayed up to its own time (`replayBefore_append_late`), and after it everything counts
(`replayBefore_append`).
-/

set_option autoImplicit false

namespace KleverGo

variable {τ α σ : Type}

def replayAll (step : σ → α → σ) (init : σ) (log : List (τ × α)) : σ :=
  log.foldl (fun s e => step s e.2) init

theorem replayAll_append (step : σ → α → σ) (init : σ) (log : List (τ × α)) (u : τ) (a : α) :
    replayAll step init (log ++ [(u, a)]) = step (replayAll step init log) a := by
  simp [replayAll, List.foldl_append]

variable [LT τ] [DecidableLT τ]

def replayBefore (step : σ → α → σ) (init : σ) (log : List (τ × α)) (t : τ) : σ :=
  (log.filter fun e => e.1 < t).foldl (fun s e => step s e.2) init

variable (step : σ → α → σ) (init : σ) {log : List (τ × α)} {t u : τ} {a : α}

theorem replayBefore_append_late (h : ¬ u < t) :
    replayBefore step init (log ++ [(u, a)]) t = replayBefore step init log t := by
  simp [replayBefore, List.filter_append, h]

theorem replayBefore_of_forall (h : ∀ e ∈ log, e.1 < t) :
    replayBefore step init log t = replayAll step init log := by
  rw [replayBefore, replayAll, List.filter_eq_self.2]
  intro e he
  simpa using h e he

theorem replayBefore_append (hlog : ∀ e ∈ log, e.1 < t) (h : u < t) :
    replayBefore step init (log ++ [(u, a)]) t = step (replayAll step init log) a := by
  rw [replayBefore_of_forall, replayAll_append]
  intro e he
  rcases List.mem_append.1 he with he | he
  · exact hlog e he
  · rw [List.mem_singleton.1 he]
    exact h

end KleverGo
