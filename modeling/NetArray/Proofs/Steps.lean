import Mathlib

/-!
# Steps and runs

A system has states and answers actions, of which each state allows some. `Reaches` says that allowed actions
lead from the one state to the other; it is the reflexive and transitive closure of a single step.

* `Reaches.keeps` — what a step keeps is kept by a whole run;
* `reaches_foldl` — to reach the end of a list of actions, it is enough to look at one action after the other
  (`AllowsAll`), which can be decided.
-/

namespace NetArray

section Steps

variable {State Action : Type} (Allows : State → Action → Prop) (step : State → Action → State)

/-- One allowed action leads from the one state to the other. -/
def Leads (state later : State) : Prop :=
  ∃ action, Allows state action ∧ step state action = later

/-- Some allowed actions lead from the one state to the other. -/
def Reaches : State → State → Prop :=
  Relation.ReflTransGen (Leads Allows step)

/-- Each of some actions is allowed in the state that the earlier ones lead to. -/
def AllowsAll (state : State) : List Action → Prop
  | [] => True
  | action :: actions => Allows state action ∧ AllowsAll (step state action) actions

instance decidableAllowsAll [∀ state action, Decidable (Allows state action)] (state : State) :
    (actions : List Action) → Decidable (AllowsAll Allows step state actions)
  | [] => inferInstanceAs (Decidable True)
  | action :: actions =>
    have := decidableAllowsAll (step state action) actions
    inferInstanceAs (Decidable (_ ∧ _))

variable {Allows step} {state later : State}

theorem Reaches.tail {action : Action} (h : Reaches Allows step state later)
    (hallows : Allows later action) : Reaches Allows step state (step later action) :=
  Relation.ReflTransGen.tail h ⟨action, hallows, rfl⟩

/-- Actions that are allowed here are allowed where more is allowed. -/
theorem Reaches.mono {Allows' : State → Action → Prop} (h : Reaches Allows step state later)
    (hallows : ∀ {state action}, Allows state action → Allows' state action) :
    Reaches Allows' step state later := by
  have hleads : Leads Allows step ≤ Leads Allows' step := by
    rintro state later ⟨action, haction, hstep⟩
    exact ⟨action, hallows haction, hstep⟩
  exact Relation.ReflTransGen.mono hleads _ _ h

/-- **Invariants.** What every allowed action keeps is kept by a run. -/
theorem Reaches.keeps {P : State → Prop} (h : Reaches Allows step state later)
    (hstep : ∀ {state action}, Allows state action → P state → P (step state action))
    (hstate : P state) : P later := by
  induction h with
  | refl => exact hstate
  | tail _ hleads ih =>
    obtain ⟨action, hallows, rfl⟩ := hleads
    exact hstep hallows ih

/-- Actions that are allowed one after the other are a run. -/
theorem reaches_foldl {actions : List Action} (h : AllowsAll Allows step state actions) :
    Reaches Allows step state (actions.foldl step state) := by
  induction actions generalizing state with
  | nil => exact .refl
  | cons action actions ih =>
    obtain ⟨hallows, hrest⟩ := h
    exact Relation.ReflTransGen.head ⟨action, hallows, rfl⟩ (ih hrest)

end Steps

end NetArray
