import Mathlib.Data.List.DropRight
import Feedling.PromptPlan

/-!
# Planning a provider round

A round sends the messages and a directory of tools. The complete schemas are sent while they fit;
under pressure the schemas that are not resident fold to a short entry, and the tool that recovers
them joins the directory. No tool name is ever dropped.
-/

namespace Feedling

namespace Prompt

/-! ## Tools -/

/-- A tool; the parameters `none` are the object without properties. -/
structure ToolSpec (β : Type) where
  name : String
  description : String
  parameters : Option β
  deriving DecidableEq, Repr

variable {μ β : Type}

def maxCollapsedDescriptionChars : Nat := 120

/-- `text.split()`. -/
def words (text : String) : List (List Char) :=
  (text.toList.splitOnP isSpace).filter fun word => !word.isEmpty

/-- `collapsed_tool_spec`. -/
def collapsedToolSpec (spec : ToolSpec β) : ToolSpec β :=
  let description := List.intercalate [' '] (words spec.description)
  { name := spec.name
    description := String.ofList <|
      if maxCollapsedDescriptionChars < description.length then
        (description.take (maxCollapsedDescriptionChars - 3)).rdropWhile isSpace ++ ['.', '.', '.']
      else description
    parameters := none }

/-- Prepared short forms; each has the name that it is kept under. -/
structure CollapsedSpecs (β : Type) where
  get? : String → Option (ToolSpec β)
  named : ∀ name spec, get? name = some spec → spec.name = name

def CollapsedSpecs.fold (specs : CollapsedSpecs β) (tool : ToolSpec β) : ToolSpec β :=
  (specs.get? tool.name).getD (collapsedToolSpec tool)

theorem CollapsedSpecs.name_fold (specs : CollapsedSpecs β) (tool : ToolSpec β) :
    (specs.fold tool).name = tool.name := by
  rw [CollapsedSpecs.fold]
  cases h : specs.get? tool.name with
  | none => rfl
  | some spec => exact specs.named _ _ h

inductive CollapsePolicy where
  | always | underPressure
  deriving DecidableEq, Repr

/-- `RESIDENT_TOOL_NAMES`. -/
def residentToolNames : List String := ["mcp_tool_search", "memory_search", "memory_write",
    "perception_snapshot"]

/-! ## The plan of a round -/

/-- How messages and schemas are counted. -/
structure Estimator (μ β : Type) where
  isToolExchange : μ → Bool
  messages : List μ → Nat
  transcript : List μ → Nat
  toolSchemas : List (ToolSpec β) → Nat

/-- The arguments of `plan_provider_round`. -/
structure RoundRequest (μ β : Type) where
  modelLimit : ModelPromptLimit
  messages : List μ
  tools : Option (List (ToolSpec β))
  requiredToolNames : List String
  protectedToolNames : List String
  collapsedToolSpecs : CollapsedSpecs β
  recoveryToolName : String
  recoveryToolActive : Bool
  toolSchemaCollapsePolicy : CollapsePolicy
  outputReserveTokens : Int
  safetyMarginTokens : Option Int

namespace RoundRequest

variable (est : Estimator μ β) (ratioMargin : Int → Int) (r : RoundRequest μ β)

def ordinaryMessages : List μ := r.messages.filter fun m => !est.isToolExchange m

def exchanges : List μ := r.messages.filter est.isToolExchange

def messageComponents : List PromptComponent :=
  ⟨"message_context", est.messages (r.ordinaryMessages est), true, 0⟩ ::
    if (r.exchanges est).isEmpty then [] else [⟨"tool_transcript", est.transcript (r.exchanges est),
      true, 0⟩]

def offeredTools : List (ToolSpec β) := r.tools.getD []

def offeredNames : List String := r.offeredTools.map (·.name)

/-- The schemas that are never folded. -/
def requiredName (name : String) : Bool :=
  (name ≠ "" && decide (name ∈ r.requiredToolNames ++ r.protectedToolNames)) ||
    decide (name ∈ residentToolNames)

def requiredPart (catalog : List (ToolSpec β)) : List (ToolSpec β) :=
  catalog.filter fun tool => r.requiredName tool.name

def optionalPart (catalog : List (ToolSpec β)) : List (ToolSpec β) :=
  catalog.filter fun tool => !r.requiredName tool.name

/-- A part of the directory is a component when it is not empty. -/
def schemasComponent (tools : List (ToolSpec β)) (name : String) (required : Bool)
    (priority : Int) : List PromptComponent :=
  if tools.isEmpty then [] else [⟨name, est.toolSchemas tools, required, priority⟩]

def plan (components : List PromptComponent) : Except PlanError PromptFrontierPlan :=
  planPrompt ratioMargin r.modelLimit components r.outputReserveTokens r.safetyMarginTokens

/-- `_atomic_plan`. -/
def atomicPlan (catalog : List (ToolSpec β)) : Except PlanError PromptFrontierPlan :=
  r.plan ratioMargin (r.messageComponents est ++
      schemasComponent est (r.requiredPart catalog) "required_tool_schemas" true 0 ++
    schemasComponent est (r.optionalPart catalog) "tool_schemas" false 1)

/-- `_finalize`. -/
def finalize (candidate : PromptFrontierPlan) (includedTools : List (ToolSpec β))
    (pressureCollapsedNames : List String) : PromptFrontierPlan :=
  let includedNames := includedTools.map (·.name)
  let collapsedNames := includedNames.filter fun name => decide (name ∈ pressureCollapsedNames)
  { candidate with
    offeredToolNames := r.offeredNames
    includedToolNames := includedNames
    pressureCollapsedToolNames := collapsedNames
    schemaRecoveryNeeded :=
      r.toolSchemaCollapsePolicy == .always || r.recoveryToolActive || !collapsedNames.isEmpty }

/-- The tool that recovers schemas, while nothing is folded. -/
def latent (name : String) : Bool :=
  r.toolSchemaCollapsePolicy == .underPressure && r.recoveryToolName != "" &&
    name == r.recoveryToolName && !r.recoveryToolActive

def baselineTools : List (ToolSpec β) := r.offeredTools.filter fun tool => !r.latent tool.name

def completeNames : List String := (r.requiredPart r.baselineTools).map (·.name)

def pressureRecoveryNeeded : Bool :=
  r.toolSchemaCollapsePolicy == .always || r.recoveryToolActive ||
    r.baselineTools.any fun tool => decide (tool.name ∉ r.completeNames)

/-- The tool folds: it is neither complete nor the one that recovers schemas. -/
def folds (name : String) : Bool := name != r.recoveryToolName && decide (name ∉ r.completeNames)

/-- What one tool adds to the folded directory. -/
def degradedEntry (tool : ToolSpec β) : List (ToolSpec β) :=
  if tool.name = r.recoveryToolName then (if r.pressureRecoveryNeeded then [tool] else [])
  else if tool.name ∉ r.completeNames then [r.collapsedToolSpecs.fold tool]
  else [tool]

/-- The loop that builds the folded directory. -/
def degradedTools : List (ToolSpec β) := r.offeredTools.flatMap r.degradedEntry

def pressureCollapsedNames : List String :=
  (r.offeredTools.filter fun tool => r.folds tool.name).map (·.name)

def foldedPlan : Except PlanError PromptFrontierPlan :=
  match r.plan ratioMargin (r.messageComponents est ++
      schemasComponent est r.degradedTools "required_tool_schemas" true 0) with
  | .error e => .error e
  | .ok candidate => .ok (r.finalize candidate r.degradedTools r.pressureCollapsedNames)

end RoundRequest

/-- `plan_provider_round`. -/
def planProviderRound (est : Estimator μ β) (ratioMargin : Int → Int) (r : RoundRequest μ β) :
    Except PlanError PromptFrontierPlan :=
  match r.tools with
  | none =>
    match r.atomicPlan est ratioMargin [] with
    | .error e => .error e
    | .ok plan => .ok (r.finalize plan [] [])
  | some _ =>
    match r.toolSchemaCollapsePolicy with
    | .underPressure =>
      match r.atomicPlan est ratioMargin r.baselineTools with
      | .error e => .error e
      | .ok plan =>
        if (r.optionalPart r.baselineTools).isEmpty ||
          decide ("tool_schemas" ∉ plan.omittedOptionalComponents) then
          .ok (r.finalize plan r.baselineTools [])
        else r.foldedPlan est ratioMargin
    | .always => r.foldedPlan est ratioMargin

/-- The tools that the loop sends for a plan. -/
def sentTools (r : RoundRequest μ β) (plan : PromptFrontierPlan) : List (ToolSpec β) :=
  (r.offeredTools.filter fun tool => decide (tool.name ∈ plan.includedToolNames)).map fun tool =>
    if tool.name ∈ plan.pressureCollapsedToolNames then r.collapsedToolSpecs.fold tool else tool

/-! ## What is counted -/

namespace RoundRequest

variable (est : Estimator μ β) {ratioMargin : Int → Int} (r : RoundRequest μ β)

/-- The estimate of the messages and of the exchanges, when there are any. -/
def conversationTokens : Nat :=
  est.messages (r.ordinaryMessages est) + if (r.exchanges est).isEmpty then 0
    else est.transcript (r.exchanges est)

/-- The estimate of a part of the directory that is sent. -/
def partTokens (tools : List (ToolSpec β)) : Nat :=
  if tools.isEmpty then 0 else est.toolSchemas tools

def completeTokens : Nat :=
  r.conversationTokens est + partTokens est (r.requiredPart r.baselineTools) +
    partTokens est (r.optionalPart r.baselineTools)

def foldedTokens : Nat := r.conversationTokens est + partTokens est r.degradedTools

theorem totalTokens_append (as bs : List PromptComponent) :
    totalTokens (as ++ bs) = totalTokens as + totalTokens bs := by
  rw [totalTokens, List.map_append, List.sum_append]
  rfl

theorem totalTokens_messageComponents :
    totalTokens (r.messageComponents est) = r.conversationTokens est := by
  rw [messageComponents, conversationTokens, totalTokens, List.map_cons, List.sum_cons]
  split_ifs
  · rfl
  · rfl

variable (tools : List (ToolSpec β))

theorem totalTokens_schemasComponent (name : String) (required : Bool) (priority : Int) :
    totalTokens (schemasComponent est tools name required priority) = partTokens est tools := by
  rw [schemasComponent, partTokens]
  split_ifs
  · rfl
  · rfl

/-- The components that are always required. -/
def fixedComponents (tools : List (ToolSpec β)) : List PromptComponent :=
  r.messageComponents est ++ schemasComponent est tools "required_tool_schemas" true 0

theorem totalTokens_fixedComponents :
    totalTokens (r.fixedComponents est tools) = r.conversationTokens est +
      partTokens est tools := by
  rw [fixedComponents, totalTokens_append, totalTokens_messageComponents,
    totalTokens_schemasComponent]

theorem required_fixedComponents : ∀ c ∈ r.fixedComponents est tools, c.required = true := by
  intro c hc
  rw [fixedComponents, messageComponents, schemasComponent] at hc
  split_ifs at hc <;> simp at hc <;> grind

theorem nodup_fixedComponents (rest : List PromptComponent)
    (hrest : (rest.map (·.name)).Sublist ["tool_schemas"]) :
    ((r.fixedComponents est tools ++ rest).map (·.name)).Nodup := by
  have hmessages : ((r.messageComponents est).map (·.name)).Sublist ["message_context",
      "tool_transcript"] := by
    rw [messageComponents, List.map_cons]
    split_ifs
    · exact (List.nil_sublist _).cons_cons _
    · exact List.Sublist.refl _
  have hschemas : ((schemasComponent est tools "required_tool_schemas" true 0).map (·.name)).Sublist
      ["required_tool_schemas"] := by
    rw [schemasComponent]
    split_ifs
    · exact List.nil_sublist _
    · exact List.Sublist.refl _
  have hsub : ((r.fixedComponents est tools ++ rest).map (·.name)).Sublist
      ["message_context", "tool_transcript", "required_tool_schemas", "tool_schemas"] := by
    rw [fixedComponents, List.map_append, List.map_append]
    exact (hmessages.append hschemas).append hrest
  exact List.Nodup.sublist hsub (by decide)

end RoundRequest

/-! ## The two attempts -/

section Attempts

open RoundRequest

variable (est : Estimator μ β) {ratioMargin : Int → Int} {r : RoundRequest μ β}
  {budget : PromptBudget}
  (hbudget : buildPromptBudget ratioMargin r.modelLimit.contextWindowTokens r.outputReserveTokens
    r.safetyMarginTokens = .ok budget)

include hbudget

theorem plan_fixed (tools : List (ToolSpec β)) :
    (r.conversationTokens est + partTokens est tools ≤ budget.inputBudgetTokens ∧
      ∃ plan, r.plan ratioMargin (r.fixedComponents est tools) = .ok plan ∧ plan.budget = budget ∧
        plan.estimatedInputTokens = r.conversationTokens est + partTokens est tools ∧
          plan.omittedOptionalComponents = []) ∨
    (budget.inputBudgetTokens < r.conversationTokens est + partTokens est tools ∧
      ∃ e, r.plan ratioMargin (r.fixedComponents est tools) = .error (.exhausted e)) := by
  have hnodup := r.nodup_fixedComponents est tools [] (List.nil_sublist _)
  rw [List.append_nil] at hnodup
  rw [← totalTokens_fixedComponents]
  by_cases h : totalTokens (r.fixedComponents est tools) ≤ budget.inputBudgetTokens
  · exact Or.inl ⟨h, planPrompt_required hbudget hnodup (r.required_fixedComponents est tools) h⟩
  · refine Or.inr ⟨Nat.not_le.mp h, planPrompt_of_lt hbudget hnodup ?_⟩
    rw [requiredTokens_of_required (r.required_fixedComponents est tools)]
    exact Nat.not_le.mp h

/-- The attempt with complete schemas: the required part may not fit, the optional part may be
omitted, or all is taken. -/
theorem atomicPlan_cases (catalog : List (ToolSpec β)) :
    (budget.inputBudgetTokens < r.conversationTokens est + partTokens est (r.requiredPart catalog) ∧
      ∃ e, r.atomicPlan est ratioMargin catalog = .error (.exhausted e)) ∨
    ∃ plan, r.atomicPlan est ratioMargin catalog = .ok plan ∧ plan.budget = budget ∧
      ((r.conversationTokens est + partTokens est (r.requiredPart catalog) +
        partTokens est (r.optionalPart catalog) ≤
            budget.inputBudgetTokens ∧
          plan.estimatedInputTokens =
            r.conversationTokens est + partTokens est (r.requiredPart catalog) +
              partTokens est (r.optionalPart catalog) ∧
          "tool_schemas" ∉ plan.omittedOptionalComponents) ∨
        (budget.inputBudgetTokens <
            r.conversationTokens est + partTokens est (r.requiredPart catalog) +
              partTokens est (r.optionalPart catalog) ∧
          (r.optionalPart catalog).isEmpty = false ∧
            "tool_schemas" ∈ plan.omittedOptionalComponents)) := by
  have hatomic : r.atomicPlan est ratioMargin catalog =
    r.plan ratioMargin (r.fixedComponents est (r.requiredPart catalog) ++
      schemasComponent est (r.optionalPart catalog) "tool_schemas" false 1) := rfl
  rw [hatomic]
  cases hoptional : (r.optionalPart catalog).isEmpty with
  | true =>
    have hnone : schemasComponent est (r.optionalPart catalog) "tool_schemas" false 1 = [] := by
      rw [schemasComponent, if_pos hoptional]
    have hzero : partTokens est (r.optionalPart catalog) = 0 := by rw [partTokens, if_pos hoptional]
    rw [hnone, hzero, List.append_nil, Nat.add_zero]
    obtain ⟨hfits, plan, hplan, hsame, htokens, homitted⟩ | ⟨hover, e, he⟩ :=
      plan_fixed est hbudget (r.requiredPart catalog)
    · exact Or.inr ⟨plan, hplan, hsame, Or.inl ⟨hfits, htokens, by simp [homitted]⟩⟩
    · exact Or.inl ⟨hover, e, he⟩
  | false =>
    have hcomponent : schemasComponent est (r.optionalPart catalog) "tool_schemas" false 1 =
        [⟨"tool_schemas", partTokens est (r.optionalPart catalog), false, 1⟩] := by
      rw [schemasComponent, partTokens, hoptional]
      rfl
    have hnodup := r.nodup_fixedComponents est (r.requiredPart catalog)
      [⟨"tool_schemas", partTokens est (r.optionalPart catalog), false, 1⟩] (List.Sublist.refl _)
    have hall := r.required_fixedComponents est (r.requiredPart catalog)
    rw [hcomponent, ← totalTokens_fixedComponents]
    by_cases h : totalTokens (r.fixedComponents est (r.requiredPart catalog)) ≤
      budget.inputBudgetTokens
    · obtain ⟨plan, hplan, hsame, ⟨hfits, htokens, homitted⟩ | ⟨hover, homitted⟩⟩ :=
        planPrompt_optional hbudget rfl hnodup hall h
      · exact Or.inr ⟨plan, hplan, hsame, Or.inl ⟨hfits, htokens, by simp [homitted]⟩⟩
      · exact Or.inr ⟨plan, hplan, hsame, Or.inr ⟨hover, rfl, by simp [homitted]⟩⟩
    · refine Or.inl ⟨Nat.not_le.mp h, planPrompt_of_lt hbudget hnodup ?_⟩
      rw [requiredTokens_concat hall rfl]
      exact Nat.not_le.mp h

end Attempts

/-! ## The directory -/

namespace RoundRequest

variable (r : RoundRequest μ β)

variable {name : String} {tool : ToolSpec β} (plan : PromptFrontierPlan)

theorem mem_completeNames (h : name ∈ r.completeNames) : r.requiredName name = true := by
  obtain ⟨tool, htool, rfl⟩ := List.mem_map.mp h
  exact (List.mem_filter.mp htool).2

theorem recovery_of_required (h : r.requiredName name = true)
    (hrecovery : name = r.recoveryToolName) (hlatent : r.latent name = false) :
    r.pressureRecoveryNeeded = true := by
  have hne : r.recoveryToolName ≠ "" := by
    intro hempty
    rw [hrecovery, hempty, requiredName] at h
    simp [residentToolNames] at h
  rw [latent] at hlatent
  rw [pressureRecoveryNeeded]
  cases hpolicy : r.toolSchemaCollapsePolicy with
  | always => rfl
  | underPressure =>
    cases hactive : r.recoveryToolActive with
    | true => rfl
    | false => simp [hpolicy, hactive, hrecovery, hne] at hlatent

theorem recovery_of_optional (h : (r.optionalPart r.baselineTools).isEmpty = false) :
    r.pressureRecoveryNeeded = true := by
  obtain ⟨tool, htool⟩ := List.exists_mem_of_ne_nil _ (List.isEmpty_eq_false_iff.mp h)
  obtain ⟨hbaseline, hoptional⟩ := List.mem_filter.mp htool
  have hfolded : tool.name ∉ r.completeNames := by
    intro hmem
    rw [r.mem_completeNames hmem] at hoptional
    cases hoptional
  have hany : (r.baselineTools.any fun tool => decide (tool.name ∉ r.completeNames)) = true :=
    List.any_eq_true.mpr ⟨tool, hbaseline, decide_eq_true hfolded⟩
  rw [pressureRecoveryNeeded, hany, Bool.or_true]

theorem degradedTools_eq (h : r.pressureRecoveryNeeded = true) :
    r.degradedTools = r.offeredTools.map fun tool => if r.folds tool.name then
    r.collapsedToolSpecs.fold tool else tool := by
  rw [degradedTools, List.map_eq_flatMap]
  refine List.flatMap_congr fun tool _ => ?_
  rw [degradedEntry, h, folds]
  by_cases hrecovery : tool.name = r.recoveryToolName
  · simp [hrecovery]
  · by_cases hcomplete : tool.name ∈ r.completeNames
    · simp [hrecovery, hcomplete]
    · simp [hrecovery, hcomplete]

theorem names_degradedTools (h : r.pressureRecoveryNeeded = true) :
    r.degradedTools.map (·.name) = r.offeredNames := by
  rw [r.degradedTools_eq h, List.map_map, offeredNames]
  refine List.map_congr_left fun tool _ => ?_
  dsimp only [Function.comp]
  split_ifs
  · exact r.collapsedToolSpecs.name_fold tool
  · rfl

theorem degradedEntry_of_required (htool : tool ∈ r.offeredTools)
    (hrequired : r.requiredName tool.name = true) (hlatent : r.latent tool.name = false) :
    r.degradedEntry tool = [tool] := by
  rw [degradedEntry]
  by_cases hrecovery : tool.name = r.recoveryToolName
  · rw [if_pos hrecovery, if_pos (r.recovery_of_required hrequired hrecovery hlatent)]
  · have hbaseline : tool ∈ r.baselineTools := List.mem_filter.mpr ⟨htool, by rw [hlatent]; rfl⟩
    have hcomplete : tool.name ∈ r.completeNames :=
      List.mem_map_of_mem (List.mem_filter.mpr ⟨hbaseline, hrequired⟩)
    rw [if_neg hrecovery, if_neg (not_not.mpr hcomplete)]

theorem sublist_degradedEntries {tools : List (ToolSpec β)}
    (htools : ∀ tool ∈ tools, tool ∈ r.offeredTools) :
    (r.requiredPart (tools.filter fun tool => !r.latent tool.name)).Sublist
      (tools.flatMap r.degradedEntry) := by
  induction tools with
  | nil => exact List.Sublist.refl _
  | cons tool tools ih =>
    have hrest := ih fun t ht => htools t (List.mem_cons_of_mem tool ht)
    rw [requiredPart, List.filter_filter] at hrest ⊢
    rw [List.filter_cons, List.flatMap_cons]
    split_ifs with hkept
    · rw [Bool.and_eq_true, Bool.not_eq_true'] at hkept
      rw [r.degradedEntry_of_required (htools tool List.mem_cons_self) hkept.1 hkept.2]
      exact hrest.cons_cons tool
    · exact hrest.trans (List.sublist_append_right _ _)

theorem requiredPart_sublist : (r.requiredPart r.baselineTools).Sublist r.degradedTools :=
  r.sublist_degradedEntries fun _ h => h

/-! ## What is sent -/

theorem sentTools_baseline :
    sentTools r (r.finalize plan r.baselineTools []) = r.baselineTools := by
  have hcollapsed : (r.finalize plan r.baselineTools []).pressureCollapsedToolNames = [] := by
    simp [finalize]
  have hincluded : (r.finalize plan r.baselineTools []).includedToolNames =
    r.baselineTools.map (·.name) := rfl
  rw [sentTools, hcollapsed, hincluded]
  simp only [List.not_mem_nil, if_false, List.map_id']
  refine List.filter_congr fun tool htool => ?_
  rw [Bool.eq_iff_iff, decide_eq_true_iff, List.mem_map]
  constructor
  · rintro ⟨other, hother, hname⟩
    rw [← hname]
    exact (List.mem_filter.mp hother).2
  · intro hlatent
    exact ⟨tool, List.mem_filter.mpr ⟨htool, hlatent⟩, rfl⟩

theorem mem_pressureCollapsedNames (h : tool ∈ r.offeredTools) :
    tool.name ∈ r.pressureCollapsedNames ↔ r.folds tool.name = true := by
  rw [pressureCollapsedNames, List.mem_map]
  constructor
  · rintro ⟨other, hother, hname⟩
    rw [← hname]
    exact (List.mem_filter.mp hother).2
  · intro hfolds
    exact ⟨tool, List.mem_filter.mpr ⟨h, hfolds⟩, rfl⟩

theorem sentTools_degraded (h : r.pressureRecoveryNeeded = true) :
    sentTools r (r.finalize plan r.degradedTools r.pressureCollapsedNames) = r.degradedTools := by
  have hincluded : (r.finalize plan r.degradedTools r.pressureCollapsedNames).includedToolNames =
    r.offeredNames := r.names_degradedTools h
  have hcollapsed :
      (r.finalize plan r.degradedTools r.pressureCollapsedNames).pressureCollapsedToolNames =
      r.offeredNames.filter fun name => decide (name ∈ r.pressureCollapsedNames) := by
    rw [← hincluded]
    rfl
  have hall : (r.offeredTools.filter fun tool => decide (tool.name ∈ r.offeredNames)) =
      r.offeredTools := by
    rw [List.filter_eq_self]
    intro tool htool
    exact decide_eq_true (List.mem_map_of_mem htool)
  rw [sentTools, hincluded, hcollapsed, hall, r.degradedTools_eq h]
  refine List.map_congr_left fun tool htool => ?_
  have hmem : tool.name ∈ r.offeredNames := List.mem_map_of_mem htool
  simp only [List.mem_filter, hmem, true_and, decide_eq_true_eq, r.mem_pressureCollapsedNames htool]

/-- The round can be sent: complete where that is tried, or folded. -/
def Sendable (est : Estimator μ β) (budget : PromptBudget) : Prop :=
  (r.toolSchemaCollapsePolicy = .underPressure ∧ r.completeTokens est ≤ budget.inputBudgetTokens) ∨
    r.foldedTokens est ≤ budget.inputBudgetTokens

/-- The same request for a larger window with the reserves of a budget. -/
def enlarged (window : Int) (budget : PromptBudget) : RoundRequest μ β :=
  { r with
    modelLimit := { r.modelLimit with contextWindowTokens := window }
    outputReserveTokens := budget.outputReserveTokens
    safetyMarginTokens := some budget.safetyMarginTokens }

end RoundRequest

/-! ## Every round -/

section Rounds

open RoundRequest

/-- Complete schemas are sent, without the tool that recovers folded ones. -/
structure SentComplete (est : Estimator μ β) (r : RoundRequest μ β) (plan : PromptFrontierPlan) :
    Prop where
  tokens : plan.estimatedInputTokens =
    r.conversationTokens est + partTokens est (r.requiredPart (sentTools r plan)) +
      partTokens est (r.optionalPart (sentTools r plan))
  included : plan.includedToolNames = r.offeredNames.filter fun name => !r.latent name
  sent : sentTools r plan = r.offeredTools.filter fun tool => !r.latent tool.name
  unfolded : plan.pressureCollapsedToolNames = []

/-- The folded directory is sent, because complete schemas do not fit or are not tried. -/
structure SentFolded (est : Estimator μ β) (r : RoundRequest μ β) (plan : PromptFrontierPlan) :
    Prop where
  pressed : r.toolSchemaCollapsePolicy = .underPressure →
    plan.budget.inputBudgetTokens < r.completeTokens est
  tokens : plan.estimatedInputTokens = r.conversationTokens est + partTokens est (sentTools r plan)
  included : plan.includedToolNames = r.offeredNames
  sent : sentTools r plan = r.offeredTools.map fun tool => if r.folds tool.name then
    r.collapsedToolSpecs.fold tool else tool

variable {est : Estimator μ β} {ratioMargin : Int → Int} {r : RoundRequest μ β}
  {budget : PromptBudget}

section Schemas

variable (hinsert : ∀ pre tool post,
  est.toolSchemas (pre ++ post) ≤ est.toolSchemas (pre ++ tool :: post))

include hinsert

theorem toolSchemas_mono {tools tools' : List (ToolSpec β)} (h : tools.Sublist tools') :
    ∀ pre, est.toolSchemas (pre ++ tools) ≤ est.toolSchemas (pre ++ tools') := by
  induction h with
  | slnil => exact fun _ => Nat.le_refl _
  | cons tool _ ih => exact fun pre => (ih pre).trans (hinsert pre tool _)
  | cons_cons tool _ ih =>
    intro pre
    have happend := ih (pre ++ [tool])
    rwa [List.append_assoc, List.append_assoc] at happend

theorem partTokens_mono {tools tools' : List (ToolSpec β)} (h : tools.Sublist tools') :
    partTokens est tools ≤ partTokens est tools' := by
  rw [partTokens, partTokens]
  by_cases hnil : tools.isEmpty = true
  · rw [if_pos hnil]
    exact Nat.zero_le _
  · have hnil' : ¬tools'.isEmpty = true := by
      intro hempty
      rw [List.isEmpty_iff.mp hempty, List.sublist_nil] at h
      exact hnil (List.isEmpty_iff.mpr h)
    rw [if_neg hnil, if_neg hnil']
    exact toolSchemas_mono hinsert h []

end Schemas

theorem sentComplete_of_atomic {plan : PromptFrontierPlan}
    (htokens : plan.estimatedInputTokens = r.completeTokens est) :
    SentComplete est r (r.finalize plan r.baselineTools []) := by
  have hsent := r.sentTools_baseline plan
  constructor
  · rw [hsent]
    exact htokens
  · rw [offeredNames, List.filter_map]
    rfl
  · exact hsent
  · simp [finalize]

theorem tokens_of_toolless (est : Estimator μ β) (h : r.tools = none) :
    r.baselineTools = [] ∧ r.completeTokens est = r.conversationTokens est ∧
      r.foldedTokens est = r.conversationTokens est := by
  have hoffered : r.offeredTools = [] := by
    rw [offeredTools, h]
    rfl
  have hbaseline : r.baselineTools = [] := by
    rw [baselineTools, hoffered]
    rfl
  refine ⟨hbaseline, ?_, ?_⟩
  · rw [completeTokens, hbaseline]
    rfl
  · rw [foldedTokens, degradedTools, hoffered]
    rfl

section Budget

variable
  (hbudget : buildPromptBudget ratioMargin r.modelLimit.contextWindowTokens r.outputReserveTokens
    r.safetyMarginTokens = .ok budget)

include hbudget

theorem foldedPlan_cases (hneeded : r.pressureRecoveryNeeded = true)
    (hpressed : r.toolSchemaCollapsePolicy = .underPressure →
      budget.inputBudgetTokens < r.completeTokens est) :
    (r.foldedTokens est ≤ budget.inputBudgetTokens ∧
      ∃ plan, r.foldedPlan est ratioMargin = .ok plan ∧ plan.budget = budget ∧
      plan.offeredToolNames = r.offeredNames ∧ SentFolded est r plan) ∨
    (budget.inputBudgetTokens < r.foldedTokens est ∧
      ∃ e, r.foldedPlan est ratioMargin = .error (.exhausted e)) := by
  unfold foldedPlan
  rw [← fixedComponents]
  obtain ⟨hfits, plan, hplan, hsame, htokens, -⟩ | ⟨hover, e, he⟩ :=
    plan_fixed est hbudget r.degradedTools
  · rw [hplan]
    have hsent := r.sentTools_degraded plan hneeded
    refine Or.inl ⟨hfits, _, rfl, hsame, rfl, ?_, ?_, ?_, ?_⟩
    · intro hpolicy
      exact lt_of_eq_of_lt (congrArg _ hsame) (hpressed hpolicy)
    · rw [hsent]
      exact htokens
    · exact r.names_degradedTools hneeded
    · rw [hsent]
      exact r.degradedTools_eq hneeded
  · rw [he]
    exact Or.inr ⟨hover, e, rfl⟩

theorem planProviderRound_cases (hinsert : ∀ pre tool post, est.toolSchemas (pre ++ post) ≤
      est.toolSchemas (pre ++ tool :: post)) :
    (r.Sendable est budget ∧ ∃ plan, planProviderRound est ratioMargin r = .ok plan ∧
      plan.budget = budget ∧
      plan.offeredToolNames = r.offeredNames ∧ (SentComplete est r plan ∨ SentFolded est r plan)) ∨
    (¬r.Sendable est budget ∧
      ∃ e, planProviderRound est ratioMargin r = .error (.exhausted e)) := by
  unfold planProviderRound
  cases htools : r.tools with
  | none =>
    obtain ⟨hbaseline, hcomplete, hfolded⟩ := tokens_of_toolless est htools
    obtain ⟨hover, e, he⟩ | ⟨plan, hplan, hsame, ⟨hfits, htokens, -⟩ | ⟨-, hoptional, -⟩⟩ :=
      atomicPlan_cases est hbudget r.baselineTools
    · rw [hbaseline] at hover he
      rw [he]
      refine Or.inr ⟨?_, e, rfl⟩
      have hover : budget.inputBudgetTokens < r.conversationTokens est := hover
      rintro (⟨-, h⟩ | h)
      · omega
      · omega
    · have hsent : SentComplete est r (r.finalize plan r.baselineTools []) :=
        sentComplete_of_atomic htokens
      have hfits : r.completeTokens est ≤ budget.inputBudgetTokens := hfits
      rw [hbaseline] at hplan hsent
      rw [hplan]
      exact Or.inl ⟨Or.inr (by omega), _, rfl, hsame, rfl, Or.inl hsent⟩
    · rw [hbaseline] at hoptional
      cases hoptional
  | some tools =>
    dsimp only
    cases hpolicy : r.toolSchemaCollapsePolicy with
    | always =>
      have hneeded : r.pressureRecoveryNeeded = true := by rw [pressureRecoveryNeeded, hpolicy]; rfl
      obtain ⟨hfits, plan, hplan, hsame, hoffered, hsent⟩ | ⟨hover, e, he⟩ :=
        foldedPlan_cases hbudget hneeded fun h => absurd (hpolicy.symm.trans h) (by decide)
      · exact Or.inl ⟨Or.inr hfits, plan, hplan, hsame, hoffered, Or.inr hsent⟩
      · refine Or.inr ⟨?_, e, he⟩
        rintro (⟨h, -⟩ | h)
        · rw [hpolicy] at h
          cases h
        · omega
    | underPressure =>
      have hsublist := partTokens_mono hinsert r.requiredPart_sublist
      obtain ⟨hover, e, he⟩ | ⟨plan, hplan, hsame, ⟨hfits, htokens, homitted⟩ |
          ⟨hover, hoptional, homitted⟩⟩ :=
        atomicPlan_cases est hbudget r.baselineTools
      · -- a folded directory holds the required part too
        rw [he]
        refine Or.inr ⟨?_, e, rfl⟩
        rintro (⟨-, h⟩ | h)
        · rw [completeTokens] at h
          omega
        · rw [foldedTokens] at h
          omega
      · rw [hplan]
        dsimp only
        rw [if_pos (by simp [homitted])]
        exact Or.inl ⟨Or.inl ⟨hpolicy, hfits⟩, _, rfl, hsame, rfl,
          Or.inl (sentComplete_of_atomic htokens)⟩
      · rw [hplan]
        dsimp only
        rw [if_neg (by simp [homitted, hoptional])]
        obtain ⟨hfits, plan', hplan', hsame', hoffered, hsent⟩ | ⟨hover', e, he⟩ :=
          foldedPlan_cases hbudget (r.recovery_of_optional hoptional) fun _ => hover
        · exact Or.inl ⟨Or.inr hfits, plan', hplan', hsame', hoffered, Or.inr hsent⟩
        · refine Or.inr ⟨?_, e, he⟩
          rintro (⟨-, h⟩ | h)
          · rw [completeTokens] at h
            omega
          · omega

end Budget

/-- Every round: a plan is within the budget and counts what is sent, no tool is dropped, schemas
fold only when the complete ones do not fit, and a larger window does not lose the plan. -/
theorem provider_round_fits (est : Estimator μ β) (ratioMargin : Int → Int) (r : RoundRequest μ β)
    (budget : PromptBudget) (hinsert : ∀ pre tool post, est.toolSchemas (pre ++ post) ≤
      est.toolSchemas (pre ++ tool :: post))
    (hbudget : buildPromptBudget ratioMargin r.modelLimit.contextWindowTokens r.outputReserveTokens
      r.safetyMarginTokens = .ok budget) :
    (∀ plan, planProviderRound est ratioMargin r = .ok plan →
      plan.estimatedInputTokens ≤ budget.inputBudgetTokens ∧ plan.budget = budget ∧
        plan.offeredToolNames = r.offeredNames ∧
        (SentComplete est r plan ∨ SentFolded est r plan)) ∧
    ((∃ plan, planProviderRound est ratioMargin r = .ok plan) ↔ r.Sendable est budget) ∧
    (∀ e, planProviderRound est ratioMargin r = .error e → ∃ exhausted, e = .exhausted exhausted) ∧
    ∀ window, r.modelLimit.contextWindowTokens ≤ window → window ≤ maxContextWindowTokens →
      (∃ plan, planProviderRound est ratioMargin r = .ok plan) →
      ∃ plan, planProviderRound est ratioMargin (r.enlarged window budget) = .ok plan := by
  have hiff : ∀ (r : RoundRequest μ β) (budget : PromptBudget),
      buildPromptBudget ratioMargin r.modelLimit.contextWindowTokens r.outputReserveTokens
        r.safetyMarginTokens = .ok budget →
      ((∃ plan, planProviderRound est ratioMargin r = .ok plan) ↔ r.Sendable est budget) := by
    intro r budget hbudget
    obtain ⟨hsendable, plan, hplan, -⟩ | ⟨hnot, e, he⟩ := planProviderRound_cases hbudget hinsert
    · exact ⟨fun _ => hsendable, fun _ => ⟨plan, hplan⟩⟩
    · refine ⟨?_, fun h => absurd h hnot⟩
      rintro ⟨plan, hplan⟩
      rw [he] at hplan
      cases hplan
  refine ⟨?_, hiff r budget hbudget, ?_, ?_⟩
  · intro plan hplan
    obtain ⟨-, plan', hplan', hsame, hoffered, hsent⟩ | ⟨-, e, he⟩ :=
      planProviderRound_cases hbudget hinsert
    · rw [hplan'] at hplan
      injection hplan with hplan
      subst hplan
      have hbalance := plan'.balance
      rw [hsame] at hbalance
      exact ⟨by omega, hsame, hoffered, hsent⟩
    · rw [he] at hplan
      cases hplan
  · intro e he
    obtain ⟨-, plan, hplan, -⟩ | ⟨-, exhausted, hexhausted⟩ :=
      planProviderRound_cases hbudget hinsert
    · rw [hplan] at he
      cases he
    · rw [hexhausted] at he
      injection he with he
      exact ⟨exhausted, he.symm⟩
  · intro window hwindow hmax hplan
    obtain ⟨larger, hlarger, hle⟩ := buildPromptBudget_larger hbudget hwindow hmax
    rw [hiff r budget hbudget] at hplan
    refine (hiff (r.enlarged window budget) larger hlarger).mpr ?_
    obtain ⟨hpolicy, hfits⟩ | hfits := hplan
    · exact Or.inl ⟨hpolicy, hfits.trans hle⟩
    · exact Or.inr (hfits.trans hle)

/-- A tool with a long schema, a resident tool, and the tool that recovers schemas; the parameters
count the tokens. -/
def pressedRound : RoundRequest Nat Nat where
  modelLimit := ⟨"caller", 2048, .caller, none, none⟩
  messages := [0]
  tools := some [⟨"memory_search", "", some 100⟩, ⟨"weather", "", some 500⟩,
    ⟨"mcp_tool_search", "", some 100⟩]
  requiredToolNames := []
  protectedToolNames := []
  collapsedToolSpecs := ⟨fun _ => none, fun _ _ h => by cases h⟩
  recoveryToolName := "mcp_tool_search"
  recoveryToolActive := false
  toolSchemaCollapsePolicy := .underPressure
  outputReserveTokens := 1000
  safetyMarginTokens := some 548

def pressedEstimator : Estimator Nat Nat where
  isToolExchange _ := false
  messages _ := 100
  transcript _ := 0
  toolSchemas tools := (tools.map fun tool => tool.parameters.getD 10).sum

theorem provider_round_fits_pressed :
    ∃ plan, planProviderRound pressedEstimator id pressedRound = .ok plan ∧
    plan.estimatedInputTokens ≤ 500 ∧ (SentComplete pressedEstimator pressedRound plan ∨
      SentFolded pressedEstimator pressedRound plan) := by
  have hinsert : ∀ pre tool post, pressedEstimator.toolSchemas (pre ++ post) ≤
      pressedEstimator.toolSchemas (pre ++ tool :: post) := by
    intro pre tool post
    simp only [pressedEstimator, List.map_append, List.map_cons, List.sum_append, List.sum_cons]
    omega
  obtain ⟨hplan, hiff, -⟩ := provider_round_fits pressedEstimator id pressedRound ⟨2048, 1000, 548,
    500, by decide⟩ hinsert (by decide +kernel)
  obtain ⟨plan, hok⟩ := hiff.mpr (Or.inr (by decide +kernel))
  exact ⟨plan, hok, (hplan plan hok).1, (hplan plan hok).2.2.2⟩

example : ((planProviderRound pressedEstimator id pressedRound).toOption.map fun plan =>
    (plan.includedToolNames, plan.pressureCollapsedToolNames, plan.estimatedInputTokens)) =
    some (["memory_search", "weather", "mcp_tool_search"], ["weather"], 310) := by decide +kernel

end Rounds

end Prompt

end Feedling
