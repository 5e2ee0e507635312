import Mathlib.Tactic.Common

/-!
# Runs of a machine with partial steps

A machine has a set of initial states, calls that a state admits, and a step
that may fail to return. The reachable states are those of finite runs of
admitted calls that returned. `Inductive` is the single obligation of a safety
proof: the property holds initially, and an admitted call in a state with the
property returns and leads to a state with the property. It yields both that
every reachable state has the property and that no admitted call there is stuck.

`Simulation` is the obligation of a refinement proof: every step of one machine is
matched by a step of the other. What holds in every reachable state of the second
then holds, through the relation, in every reachable state of the first.
-/

namespace Runs

universe u v w x

/-- Initial states, admitted calls and the step of a machine. A step that yields
nothing has not returned. -/
structure Machine (State : Type u) (Call : Type v) where
  initial : State → Prop
  allowed : State → Call → Prop
  step : State → Call → Option State

variable {State : Type u} {Call : Type v}

/-- The states of finite runs. -/
inductive Reachable (machine : Machine State Call) : State → Prop where
  | initial {state : State} (starts : machine.initial state) : Reachable machine state
  | step {state after : State} {call : Call} (reached : Reachable machine state)
      (allowed : machine.allowed state call) (returned : machine.step state call = some after) :
      Reachable machine after

/-- A run goes on with a call. -/
theorem Reachable.call {machine : Machine State Call} {state after : State}
    (reached : Reachable machine state) (call : Call) (allowed : machine.allowed state call)
    (returned : machine.step state call = some after) : Reachable machine after :=
  .step reached allowed returned

/-- A property that holds initially and that every admitted call returns with. -/
structure Inductive (machine : Machine State Call) (property : State → Prop) : Prop where
  starts : ∀ state, machine.initial state → property state
  preserved : ∀ state call, property state → machine.allowed state call →
    ∃ after, machine.step state call = some after ∧ property after

variable {machine : Machine State Call} {property : State → Prop}

theorem Inductive.holds (obligation : Inductive machine property) {state : State}
    (reached : Reachable machine state) : property state := by
  induction reached with
  | initial starts => exact obligation.starts _ starts
  | step _ allowed returned ih =>
    obtain ⟨after, result, holds⟩ := obligation.preserved _ _ ih allowed
    obtain rfl := Option.some.inj (result.symm.trans returned)
    exact holds

theorem Inductive.returns (obligation : Inductive machine property) {state : State} {call : Call}
    (reached : Reachable machine state) (allowed : machine.allowed state call) :
    ∃ after, machine.step state call = some after := by
  obtain ⟨after, result, _⟩ := obligation.preserved state call (obligation.holds reached) allowed
  exact ⟨after, result⟩

/-- A machine that admits more has the states of one that admits less. -/
theorem Reachable.mono {wider : Machine State Call}
    (starts : ∀ state, machine.initial state → wider.initial state)
    (admits : ∀ state call, machine.allowed state call → wider.allowed state call)
    (same : machine.step = wider.step) {state : State} (reached : Reachable machine state) :
    Reachable wider state := by
  induction reached with
  | initial isInitial => exact .initial (starts _ isInitial)
  | step _ allowed returned ih => exact .step ih (admits _ _ allowed) (same ▸ returned)

variable {Image : Type w} {Act : Type x}

/-- A relation in which the steps of a machine are matched by those of another one. -/
structure Simulation (machine : Machine State Call) (abstract : Machine Image Act)
    (relates : State → Image → Prop) : Prop where
  starts : ∀ state, machine.initial state → ∃ image, abstract.initial image ∧ relates state image
  matched : ∀ state image call after, Reachable abstract image → relates state image →
    machine.allowed state call → machine.step state call = some after →
    ∃ act next, abstract.allowed image act ∧ abstract.step image act = some next ∧
      relates after next

theorem Simulation.reachable {abstract : Machine Image Act} {relates : State → Image → Prop}
    (simulation : Simulation machine abstract relates) {state : State}
    (reached : Reachable machine state) : ∃ image, Reachable abstract image ∧ relates state image := by
  induction reached with
  | initial starts =>
    obtain ⟨image, isInitial, related⟩ := simulation.starts _ starts
    exact ⟨image, .initial isInitial, related⟩
  | step _ allowed returned ih =>
    obtain ⟨image, imageReached, related⟩ := ih
    obtain ⟨act, next, isAllowed, isStep, nextRelated⟩ :=
      simulation.matched _ image _ _ imageReached related allowed returned
    exact ⟨next, .step imageReached isAllowed isStep, nextRelated⟩

end Runs
