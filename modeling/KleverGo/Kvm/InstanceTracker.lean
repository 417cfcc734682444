import Mathlib

/-!
# A timeout request is never lost

`kvm/vmhost/contexts/instanceTracker.go`: the execution goroutine starts, pushes, pops and
unsets instances and writes the breakpoint of the active one, while the timeout goroutine may
call `RequestInterruption` between any two of these steps.  `mutActive` makes each write of the
active instance or its breakpoint atomic, so a run is these writes in any order.  The executor
creates and resets instances outside the lock: that is a step of its own.

Left out: code hashes, the warm cache and the ceiling on tracked instances, which only decide
which instance is started, and `Clean`, which the source never calls on an active instance.
-/

namespace KleverGo.Kvm

open Relation

/-- `BreakpointValue` (`kvm/vmhost/common.go`). -/
inductive BreakpointValue where
  | None | ExecutionFailed | SignalError | OutOfGas | MemoryLimit
  deriving DecidableEq

/-- `instanceTracker`, instances being numbered; `breakpoints` is what the executor holds. -/
structure InstanceTracker where
  active : Option Nat := none
  instanceStack : List (Option Nat) := []
  breakpoints : Nat → BreakpointValue := fun _ => .None
  interruption : BreakpointValue := .None

namespace InstanceTracker

/-- `SetBreakpointValue` of one instance. -/
def setBreakpointValue (id : Nat) (value : BreakpointValue) (t : InstanceTracker) :
    InstanceTracker :=
  { t with breakpoints := Function.update t.breakpoints id value }

def setActiveInstance (inst : Option Nat) (t : InstanceTracker) : InstanceTracker :=
  match inst with
  | none => { t with active := none }
  | some id =>
    if t.interruption = .None then { t with active := some id }
    else setBreakpointValue id t.interruption { t with active := some id }

/-- `SetActiveBreakpointValue`; without an active instance the source panics. -/
def setActiveBreakpointValue (value : BreakpointValue) (t : InstanceTracker) : InstanceTracker :=
  match t.active with
  | none => t
  | some id => t.setBreakpointValue id (if value = .None then t.interruption else value)

def requestInterruption (value : BreakpointValue) (t : InstanceTracker) : InstanceTracker :=
  match t.active with
  | none => { t with interruption := value }
  | some id => setBreakpointValue id value { t with interruption := value }

def pushState (t : InstanceTracker) : InstanceTracker :=
  { t with instanceStack := t.active :: t.instanceStack }

def popSetActiveState (t : InstanceTracker) : InstanceTracker :=
  match t.instanceStack with
  | [] => t
  | top :: rest => { t.setActiveInstance top with instanceStack := rest }

/-- One step of either goroutine; `ClearInterruption` is the only one missing. -/
inductive Step : InstanceTracker → InstanceTracker → Prop
  -- `UnsetInstance`, `InitState`, `ForceCleanInstance`
  | unset (t) : Step t (t.setActiveInstance none)
  -- `ReplaceInstance`, `SetNewInstance`
  | replace (t) (id : Nat) : Step t (t.setActiveInstance (some id))
  | push (t) : Step t t.pushState
  | pop (t) : Step t t.popSetActiveState
  | clearStack (t) : Step t { t with instanceStack := [] }
  | write (t) (value : BreakpointValue) : Step t (t.setActiveBreakpointValue value)
  -- the executor creates or resets an instance: `startWasmerInstance` has unset the active one
  | reset (t) (id : Nat) (value : BreakpointValue) (hunset : t.active = none) :
      Step t (t.setBreakpointValue id value)
  | request (t) (value : BreakpointValue) (hvalue : value ≠ .None) :
      Step t (t.requestInterruption value)

/-- Requests of the timeout goroutine, one after the other. -/
def requests (values : List BreakpointValue) (t : InstanceTracker) : InstanceTracker :=
  values.foldl (fun t value => t.requestInterruption value) t

/-- `startWasmerInstance` with the warm instance `id`, whose reset leaves `value` in it;
`r₁`, `r₂` and `r₃` are the requests that land between its steps. -/
def startWarm (id : Nat) (value : BreakpointValue) (r₁ r₂ r₃ : List BreakpointValue)
    (t : InstanceTracker) : InstanceTracker :=
  let unset := requests r₁ (t.setActiveInstance none)
  let reset := requests r₂ (unset.setBreakpointValue id value)
  let started := requests r₃ (reset.setActiveInstance (some id))
  started.setActiveBreakpointValue .None

theorem requestInterruption_active (t : InstanceTracker) (value : BreakpointValue) :
    (t.requestInterruption value).active = t.active := by
  unfold requestInterruption
  split <;> simp_all [setBreakpointValue]

theorem requests_active (values : List BreakpointValue) (t : InstanceTracker) :
    (requests values t).active = t.active := by
  induction values generalizing t with
  | nil => rfl
  | cons value values ih => exact (ih _).trans (t.requestInterruption_active value)

variable {t t' : InstanceTracker}

theorem steps_requests {values : List BreakpointValue} (hvalues : ∀ v ∈ values, v ≠ .None)
    (h : ReflTransGen Step t t') :
    ReflTransGen Step t (requests values t') := by
  induction values generalizing t' with
  | nil => exact h
  | cons value values ih =>
    rw [List.forall_mem_cons] at hvalues
    exact ih hvalues.2 (h.tail (.request t' value hvalues.1))

/-- The reset of a warm instance finds no active one, wherever the requests land. -/
theorem startWarm_steps {r₁ r₂ r₃ : List BreakpointValue} (h1 : ∀ v ∈ r₁, v ≠ .None)
    (h2 : ∀ v ∈ r₂, v ≠ .None) (h3 : ∀ v ∈ r₃, v ≠ .None) (id : Nat)
    (value : BreakpointValue) (t : InstanceTracker) :
    ReflTransGen Step t (startWarm id value r₁ r₂ r₃ t) := by
  have hunset := steps_requests h1 (.single (.unset t))
  have hreset := steps_requests h2 (hunset.tail
    (.reset _ id value ((requests_active r₁ _).trans rfl)))
  exact (steps_requests h3 (hreset.tail (.replace _ id))).tail (.write _ .None)

/-- An interruption is pending and the active instance, if any, has a breakpoint set. -/
def Stopped (t : InstanceTracker) : Prop :=
  t.interruption ≠ .None ∧ ∀ id, t.active = some id → t.breakpoints id ≠ .None

theorem stopped_requestInterruption (t : InstanceTracker) {value : BreakpointValue}
    (hvalue : value ≠ .None) : (t.requestInterruption value).Stopped := by
  unfold requestInterruption
  split <;> simp_all [Stopped, setBreakpointValue]

theorem Stopped.setActiveInstance (h : t.Stopped) (inst : Option Nat) :
    (t.setActiveInstance inst).Stopped := by
  cases inst with
  | none => exact ⟨h.1, by simp [InstanceTracker.setActiveInstance]⟩
  | some id => simp [Stopped, InstanceTracker.setActiveInstance, setBreakpointValue, h.1]

theorem Stopped.step (h : t.Stopped) (hstep : Step t t') : t'.Stopped := by
  cases hstep with
  | unset => exact h.setActiveInstance none
  | replace id => exact h.setActiveInstance (some id)
  | push | clearStack => exact h
  | pop =>
    unfold popSetActiveState
    split
    · exact h
    · exact h.setActiveInstance _
  | write value =>
    -- a write of `None` becomes a write of the pending interruption
    unfold setActiveBreakpointValue
    obtain ⟨hpending, hactive⟩ := h
    split <;> by_cases hvalue : value = .None <;> simp_all [Stopped, setBreakpointValue]
  | reset id value hunset => exact ⟨h.1, by simp [setBreakpointValue, hunset]⟩
  | request value hvalue => exact t.stopped_requestInterruption hvalue

/-- From a request until `ClearInterruption` the active instance has a breakpoint set. -/
theorem requested_stays_stopped (t t' : InstanceTracker) (value : BreakpointValue)
    (hvalue : value ≠ .None) (hrun : ReflTransGen Step (t.requestInterruption value) t') :
    ∀ id, t'.active = some id → t'.breakpoints id ≠ .None := by
  have hstopped : t'.Stopped := by
    induction hrun with
    | refl => exact t.stopped_requestInterruption hvalue
    | tail _ hstep ih => exact ih.step hstep
  exact hstopped.2

/-- A warm instance started after the request is stopped too. -/
theorem requested_stays_stopped_warm :
    (startWarm 1 .None [] [] [] (requestInterruption .ExecutionFailed
      { active := some 0 })).breakpoints 1 ≠ .None :=
  requested_stays_stopped { active := some 0 } _ .ExecutionFailed (by decide)
    (startWarm_steps (by simp) (by simp) (by simp) 1 .None _) 1 rfl

end InstanceTracker

end KleverGo.Kvm
