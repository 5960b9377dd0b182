import Mathlib.Algebra.Ring.Nat
import Mathlib.Data.List.Sort
import Feedling.Store

/-!
# The prompt budget

A model window is split into a reserve for the output, a safety margin and the budget for the input.
A plan admits all required components or fails; optional ones are admitted whole, by priority.
-/

namespace Feedling

namespace Prompt

/-! ## Budgets -/

inductive LimitSource where
  | deploymentOverride | providerMetadata | caller | auditedFamily | unauditedDefault
  deriving DecidableEq, Repr

structure ModelPromptLimit where
  provider : String
  contextWindowTokens : Int
  source : LimitSource
  rejectedProviderMetadataTokens : Option Int
  providerMetadataFloorTokens : Option Int
  deriving DecidableEq, Repr

/-- One window split into parts that do not overlap. -/
structure PromptBudget where
  contextWindowTokens : Int
  outputReserveTokens : Int
  safetyMarginTokens : Int
  inputBudgetTokens : Nat
  split : inputBudgetTokens + outputReserveTokens + safetyMarginTokens = contextWindowTokens
  deriving DecidableEq, Repr

structure PromptFrontierExhausted where
  requiredTokens : Nat
  budget : PromptBudget
  requiredComponents : List String
  limitSource : LimitSource
  provider : String
  rejectedProviderMetadataTokens : Option Int
  providerMetadataFloorTokens : Option Int
  deriving DecidableEq, Repr

inductive PlanError where
  | valueError (detail : String)
  | exhausted (e : PromptFrontierExhausted)
  deriving DecidableEq, Repr

def minContextWindowTokens : Int := 2048

def maxContextWindowTokens : Int := 2000000

def minSafetyMarginTokens : Int := 512

/-- `_validated_context_window`. -/
def validatedContextWindow (value : Int) (label : String) : Except PlanError Int :=
  if minContextWindowTokens ≤ value ∧ value ≤ maxContextWindowTokens then .ok value
  else .error (.valueError (label ++ " must be between " ++ toString minContextWindowTokens ++
      " and " ++ toString maxContextWindowTokens))

/-- The safety margin that is asked for, or the default one; `ratioMargin` is the rounded share of
the window. -/
def safetyMargin (ratioMargin : Int → Int) (context : Int) : Option Int → Except PlanError Int
  | none => .ok (max minSafetyMarginTokens (ratioMargin context))
  | some safety =>
    if safety < 0 then .error (.valueError "safety margin must be a non-negative integer")
      else .ok safety

/-- `build_prompt_budget`. -/
def buildPromptBudget (ratioMargin : Int → Int) (contextWindowTokens outputReserveTokens : Int)
    (safetyMarginTokens : Option Int) : Except PlanError PromptBudget :=
  match validatedContextWindow contextWindowTokens "context window" with
  | .error e => .error e
  | .ok context =>
    if outputReserveTokens ≤ 0 then .error (.valueError "output reserve must be a positive integer")
    else
      match safetyMargin ratioMargin context safetyMarginTokens with
      | .error e => .error e
      | .ok safety =>
        if h : 0 ≤ context - outputReserveTokens - safety then
          .ok ⟨context, outputReserveTokens, safety, (context - outputReserveTokens - safety).toNat,
            by omega⟩
        else .error (.valueError "output reserve plus safety margin exceeds context window")

variable {ratioMargin : Int → Int} {asked : Option Int} {budget : PromptBudget}

theorem safetyMargin_nonneg {context safety : Int}
    (h : safetyMargin ratioMargin context asked = .ok safety) : 0 ≤ safety := by
  cases asked with
  | none =>
    injection h with h
    have hmin : 0 ≤ minSafetyMarginTokens := by decide
    omega
  | some asked =>
    rw [safetyMargin] at h
    split_ifs at h with hneg
    injection h with h
    omega

theorem buildPromptBudget_ok {context output : Int}
    (h : buildPromptBudget ratioMargin context output asked = .ok budget) :
    minContextWindowTokens ≤ context ∧ budget.contextWindowTokens = context ∧ 0 < output ∧
      budget.outputReserveTokens = output ∧ 0 ≤ budget.safetyMarginTokens := by
  unfold buildPromptBudget validatedContextWindow at h
  by_cases hrange : minContextWindowTokens ≤ context ∧ context ≤ maxContextWindowTokens
  · rw [if_pos hrange] at h
    dsimp only at h
    by_cases houtput : output ≤ 0
    · rw [if_pos houtput] at h
      cases h
    rw [if_neg houtput] at h
    cases hsafety : safetyMargin ratioMargin context asked with
    | error e =>
      rw [hsafety] at h
      cases h
    | ok safety =>
      rw [hsafety] at h
      dsimp only at h
      split_ifs at h with hinput
      injection h with h
      subst h
      exact ⟨hrange.1, rfl, Int.not_le.mp houtput, rfl, safetyMargin_nonneg hsafety⟩
  · rw [if_neg hrange] at h
    cases h

theorem buildPromptBudget_larger {context output : Int}
    (h : buildPromptBudget ratioMargin context output asked = .ok budget) {window : Int}
    (hwindow : context ≤ window)
    (hmax : window ≤ maxContextWindowTokens) :
    ∃ larger, buildPromptBudget ratioMargin window budget.outputReserveTokens
      (some budget.safetyMarginTokens) = .ok larger ∧
      budget.inputBudgetTokens ≤ larger.inputBudgetTokens := by
  obtain ⟨hmin, hcontext, hpos, houtput, hsafety⟩ := buildPromptBudget_ok h
  have hsplit := budget.split
  have hinput : 0 ≤ window - budget.outputReserveTokens - budget.safetyMarginTokens := by omega
  have hrange : minContextWindowTokens ≤ window ∧ window ≤ maxContextWindowTokens :=
    ⟨hmin.trans hwindow, hmax⟩
  unfold buildPromptBudget validatedContextWindow safetyMargin
  rw [if_pos hrange]
  dsimp only
  rw [if_neg (by omega), if_neg (by omega)]
  dsimp only
  rw [dif_pos hinput]
  refine ⟨_, rfl, ?_⟩
  dsimp only
  omega

/-! ## Plans -/

structure PromptComponent where
  name : String
  estimatedTokens : Nat
  required : Bool
  priority : Int
  deriving DecidableEq, Repr

inductive Reason where
  | required | optionalFit | optionalOverBudget
  deriving DecidableEq, Repr

structure ComponentDecision where
  component : PromptComponent
  included : Bool
  reason : Reason
  deriving DecidableEq, Repr

inductive PlanStatus where
  | fits | fitsOptionalOmitted
  deriving DecidableEq, Repr

/-- A plan is never over its budget. -/
structure PromptFrontierPlan where
  modelLimit : ModelPromptLimit
  budget : PromptBudget
  decisions : List ComponentDecision
  estimatedInputTokens : Nat
  remainingInputTokens : Nat
  balance : estimatedInputTokens + remainingInputTokens = budget.inputBudgetTokens
  status : PlanStatus
  offeredToolNames : List String
  includedToolNames : List String
  pressureCollapsedToolNames : List String
  schemaRecoveryNeeded : Bool
  deriving DecidableEq, Repr

def PromptFrontierPlan.omittedOptionalComponents (plan : PromptFrontierPlan) : List String :=
  (plan.decisions.filter fun d => !d.component.required && !d.included).map (·.component.name)

def requiredTokens (components : List PromptComponent) : Nat :=
  ((components.filter fun c => c.required).map (·.estimatedTokens)).sum

/-- By falling priority, then in the order of the caller. -/
def AdmittedBefore (a b : PromptComponent × Nat) : Prop :=
  b.1.priority < a.1.priority ∨ (a.1.priority = b.1.priority ∧ a.2 ≤ b.2)

instance : DecidableRel AdmittedBefore := fun _ _ => inferInstanceAs (Decidable (_ ∨ _))

/-- The optional components with their places, in the order in which they are tried. -/
def admissionOrder (components : List PromptComponent) : List (PromptComponent × Nat) :=
  (components.zipIdx.filter fun p => !p.1.required).insertionSort AdmittedBefore

/-- The places that are admitted, and the tokens that are used then. -/
def admitOptional (limit used : Nat) : List (PromptComponent × Nat) → List Nat × Nat
  | [] => ([], used)
  | (c, index) :: rest =>
    if used + c.estimatedTokens ≤ limit then
      let admitted := admitOptional limit (used + c.estimatedTokens) rest
      (index :: admitted.1, admitted.2)
    else admitOptional limit used rest

theorem admitOptional_le {limit used : Nat} (h : used ≤ limit)
    (order : List (PromptComponent × Nat)) : (admitOptional limit used order).2 ≤ limit := by
  induction order generalizing used with
  | nil => exact h
  | cons p rest ih =>
    rw [admitOptional]
    split_ifs with hfits
    · exact ih hfits
    · exact ih h

def decision (admitted : List Nat) (p : PromptComponent × Nat) : ComponentDecision :=
  if p.1.required then ⟨p.1, true, .required⟩
  else if p.2 ∈ admitted then ⟨p.1, true, .optionalFit⟩
  else ⟨p.1, false, .optionalOverBudget⟩

/-- `plan_prompt`. -/
def planPrompt (ratioMargin : Int → Int) (modelLimit : ModelPromptLimit)
    (components : List PromptComponent) (outputReserveTokens : Int)
    (safetyMarginTokens : Option Int) : Except PlanError PromptFrontierPlan :=
  match buildPromptBudget ratioMargin modelLimit.contextWindowTokens outputReserveTokens
    safetyMarginTokens with
  | .error e => .error e
  | .ok budget =>
    if ¬(components.map (·.name)).Nodup then
      .error (.valueError "prompt component names must be unique")
    else if h : requiredTokens components ≤ budget.inputBudgetTokens then
      let admitted := admitOptional budget.inputBudgetTokens (requiredTokens components)
        (admissionOrder components)
      let decisions := components.zipIdx.map (decision admitted.1)
      .ok { modelLimit, budget, decisions
            estimatedInputTokens := admitted.2
            remainingInputTokens := budget.inputBudgetTokens - admitted.2
            balance := Nat.add_sub_of_le (admitOptional_le h _)
            status := if decisions.any fun d => !d.included then .fitsOptionalOmitted else .fits
            offeredToolNames := []
            includedToolNames := []
            pressureCollapsedToolNames := []
            schemaRecoveryNeeded := false }
    else .error (.exhausted
      { requiredTokens := requiredTokens components
        budget
        requiredComponents := (components.filter fun c => c.required).map (·.name)
        limitSource := modelLimit.source
        provider := modelLimit.provider
        rejectedProviderMetadataTokens := modelLimit.rejectedProviderMetadataTokens
        providerMetadataFloorTokens := modelLimit.providerMetadataFloorTokens })

/-! ## What a plan admits -/

section Plan

variable {ratioMargin : Int → Int} {modelLimit : ModelPromptLimit} {outputReserveTokens : Int}
  {safetyMarginTokens : Option Int} {budget : PromptBudget} {components : List PromptComponent}

def totalTokens (components : List PromptComponent) : Nat :=
  (components.map (·.estimatedTokens)).sum

section

variable (h : ∀ c ∈ components, c.required = true)
include h

theorem requiredTokens_of_required : requiredTokens components = totalTokens components := by
  rw [requiredTokens, List.filter_eq_self.mpr h, totalTokens]

theorem requiredTokens_concat {o : PromptComponent} (ho : o.required = false) :
    requiredTokens (components ++ [o]) = totalTokens components := by
  have hnil : ([o].filter fun c => c.required) = [] := by simp [ho]
  rw [requiredTokens, List.filter_append, hnil, List.append_nil]
  exact requiredTokens_of_required h

theorem filter_zipIdx_of_required (n : Nat) :
    ((components.zipIdx n).filter fun p => !p.1.required) = [] := by
  rw [List.filter_eq_nil_iff]
  intro p hp
  rw [h p.1 (List.fst_mem_of_mem_zipIdx hp)]
  exact Bool.false_ne_true

theorem admissionOrder_of_required : admissionOrder components = [] := by
  rw [admissionOrder, filter_zipIdx_of_required h]
  rfl

theorem admissionOrder_concat {o : PromptComponent} (ho : o.required = false) :
    admissionOrder (components ++ [o]) = [(o, components.length)] := by
  rw [admissionOrder, List.zipIdx_append, List.filter_append, filter_zipIdx_of_required h,
    List.nil_append, Nat.zero_add]
  simp [ho]

theorem omitted_of_required (n : Nat) (admitted : List Nat) :
    (((components.zipIdx n).map (decision admitted)).filter fun d => !d.component.required &&
      !d.included) = [] := by
  rw [List.filter_eq_nil_iff]
  intro d hd
  obtain ⟨p, hp, rfl⟩ := List.mem_map.mp hd
  simp [decision, h p.1 (List.fst_mem_of_mem_zipIdx hp)]

end

variable
  (hbudget : buildPromptBudget ratioMargin modelLimit.contextWindowTokens outputReserveTokens
    safetyMarginTokens = .ok budget)

include hbudget

section

variable (hnodup : (components.map (·.name)).Nodup)
include hnodup

theorem planPrompt_of_le (h : requiredTokens components ≤ budget.inputBudgetTokens) :
    ∃ plan, planPrompt ratioMargin modelLimit components outputReserveTokens safetyMarginTokens =
      .ok plan ∧ plan.budget = budget ∧
      plan.estimatedInputTokens = (admitOptional budget.inputBudgetTokens
        (requiredTokens components) (admissionOrder components)).2 ∧
      plan.decisions = components.zipIdx.map
        (decision (admitOptional budget.inputBudgetTokens (requiredTokens components)
          (admissionOrder components)).1) := by
  unfold planPrompt
  rw [hbudget]
  dsimp only
  rw [if_neg (not_not.mpr hnodup), dif_pos h]
  exact ⟨_, rfl, rfl, rfl, rfl⟩

theorem planPrompt_of_lt (h : budget.inputBudgetTokens < requiredTokens components) :
    ∃ e, planPrompt ratioMargin modelLimit components outputReserveTokens safetyMarginTokens =
      .error (.exhausted e) := by
  unfold planPrompt
  rw [hbudget]
  dsimp only
  rw [if_neg (not_not.mpr hnodup), dif_neg (Nat.not_le.mpr h)]
  exact ⟨_, rfl⟩

theorem planPrompt_required (hall : ∀ c ∈ components, c.required = true)
    (h : totalTokens components ≤ budget.inputBudgetTokens) :
    ∃ plan, planPrompt ratioMargin modelLimit components outputReserveTokens safetyMarginTokens =
      .ok plan ∧ plan.budget = budget ∧
      plan.estimatedInputTokens = totalTokens components ∧ plan.omittedOptionalComponents = [] := by
  rw [← requiredTokens_of_required hall] at h ⊢
  obtain ⟨plan, hplan, hsame, htokens, hdecisions⟩ := planPrompt_of_le hbudget hnodup h
  refine ⟨plan, hplan, hsame, ?_, ?_⟩
  · rw [htokens, admissionOrder_of_required hall]
    rfl
  · rw [PromptFrontierPlan.omittedOptionalComponents, hdecisions, omitted_of_required hall]
    rfl

end

/-- One optional component behind required ones: it is admitted exactly when it fits. -/
theorem planPrompt_optional {o : PromptComponent} (ho : o.required = false)
    (hnodup : ((components ++ [o]).map (·.name)).Nodup) (hall : ∀ c ∈ components, c.required = true)
    (h : totalTokens components ≤ budget.inputBudgetTokens) :
    ∃ plan, planPrompt ratioMargin modelLimit (components ++
      [o]) outputReserveTokens safetyMarginTokens = .ok plan ∧ plan.budget = budget ∧
      ((totalTokens components + o.estimatedTokens ≤ budget.inputBudgetTokens ∧
          plan.estimatedInputTokens = totalTokens components + o.estimatedTokens ∧
            plan.omittedOptionalComponents = []) ∨
        (budget.inputBudgetTokens < totalTokens components + o.estimatedTokens ∧
          plan.omittedOptionalComponents = [o.name])) := by
  rw [← requiredTokens_concat hall ho] at h
  obtain ⟨plan, hplan, hsame, htokens, hdecisions⟩ := planPrompt_of_le hbudget hnodup h
  rw [admissionOrder_concat hall ho, requiredTokens_concat hall ho, admitOptional, admitOptional,
    admitOptional] at htokens hdecisions
  refine ⟨plan, hplan, hsame, ?_⟩
  rw [PromptFrontierPlan.omittedOptionalComponents, hdecisions, List.zipIdx_append, List.map_append,
    List.filter_append, omitted_of_required hall, List.nil_append, Nat.zero_add]
  split_ifs at htokens ⊢ with hfits
  · exact Or.inl ⟨hfits, htokens, by simp [decision, ho]⟩
  · exact Or.inr ⟨Nat.not_le.mp hfits, by simp [decision, ho]⟩

end Plan

end Prompt

end Feedling
