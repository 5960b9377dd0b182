import Feedling.Redelivery
import Feedling.SinkClaims
import Feedling.Waves
import Feedling.Workspace

/-!
# Delivery of a workspace batch

A batch is one effect with many children. The sink partitions the children into waves of
operations on unrelated paths, runs the children of a wave concurrently, and stops after a wave in
which one of them raised. Each child has a claim of its own, so that a redelivery skips the ones
that were completed. A rejected child gives its claim back and is run again.
-/

namespace Feedling

open Redelivery

inductive Mutation where
  | write (content : String)
  | delete
  deriving DecidableEq, Repr

/-- The tool name of the operation. -/
def Mutation.op : Mutation → String
  | .write _ => "workspace_write"
  | .delete => "workspace_delete"

/-- One element of `operations` in the decrypted payload. -/
structure Operation where
  mutation : Mutation
  path : String
  expectedRevision : Int
  subEffectId : String
  deriving DecidableEq, Repr

/-! ## Validation -/

def maxWorkspaceBatchOperations : Nat := 24
def sharedWorkMaxBytes : Nat := 256000

/-- `derive_batch_item`. -/
def deriveBatchItem (parentEffectId : String) (ordinal : Nat) : String :=
  parentEffectId ++ ":item:" ++ ordinal.repr

/-- `validate_tool_args` for the two workspace tools. -/
def validToolArgs (o : Operation) : Bool :=
  decide (0 ≤ o.expectedRevision) && match o.mutation with
    | .write content =>
      !(".io.html".toList.isSuffixOf (lower (strip o.path)).toList) ||
        decide (content.utf8ByteSize ≤ sharedWorkMaxBytes)
    | .delete => true

/-- `_validate_decrypted_tool_effect` for a workspace batch. -/
def validateBatch (parentEffectId : String) (operations : List Operation) : Bool :=
  parentEffectId != "" && !operations.isEmpty &&
    decide (operations.length ≤ maxWorkspaceBatchOperations) &&
    operations.zipIdx.all fun (o, index) => o.subEffectId == deriveBatchItem parentEffectId index &&
      validToolArgs o

/-! ## Waves -/

def workspacePathsConflict (left right : String) : Bool :=
  left == right || startsWith left (right ++ "/") || startsWith right (left ++ "/")

/-- The loop of `_workspace_mutation_waves` with its two accumulators. -/
def addToWaves (acc : List (List Operation) × List Operation) (o : Operation) :
    List (List Operation) × List Operation :=
  if acc.2.any fun existing => workspacePathsConflict o.path existing.path then
    (acc.1 ++ [acc.2], [o])
  else (acc.1, acc.2 ++ [o])

/-- Every path is checked before the first wave starts. -/
def prepareOperations (operations : List Operation) : Option (List Operation) :=
  operations.mapM fun o => (modelWritablePath o.path).toOption.map fun path => { o with path }

def workspaceMutationWaves (prepared : List Operation) : List (List Operation) :=
  let (waves, current) := prepared.foldl addToWaves ([], [])
  if current.isEmpty then waves else waves ++ [current]

/-! ## One child -/

/-- The workspace and the rows of `v2_effect_sink_applied`. -/
structure BatchState where
  entries : Entries
  claims : String → Option ClaimState

/-- The item that a child leaves in the result of the batch. -/
inductive ItemStatus where
  | applied (revision : Option Nat)
  | discarded (error : String)
  deriving DecidableEq, Repr

def ItemStatus.isApplied : ItemStatus → Bool
  | .applied _ => true
  | .discarded _ => false

inductive ChildResult where
  | outcome (s : ItemStatus)
  | retryable
  | uncertain
  deriving DecidableEq, Repr

/-- The capability behind the operation; a write returns its new revision. -/
def Operation.run (o : Operation) (ws : Entries) : Except WorkspaceError (Entries × Option Nat) :=
  match o.mutation with
  | .write content =>
    (Backend.write ws o.path content o.expectedRevision).map fun r => (r.1, some r.2.revision)
  | .delete => (Backend.postgres.delete ws o.path o.expectedRevision).map fun ws => (ws, none)

/-- The code of a rejection. -/
def Operation.terminalError (o : Operation) (e : WorkspaceError) : String :=
  match o.mutation, e with
  | .write _, .conflict => "workspace_revision_conflict"
  | m, _ => m.op ++ "_failed"

/-- `_apply_workspace_batch_operation`. The environment may let it raise before its claim is
looked up, or in the capability; then nothing was written. -/
def applyWorkspaceBatchOperation (fault : Fault) (o : Operation) (st : BatchState) :
    BatchState × ChildResult :=
  let setClaim row := Function.update st.claims o.subEffectId row
  match fault, effectSinkClaim (st.claims o.subEffectId) with
  | .early, _ => (st, .retryable)
  | _, (_, .alreadyCompleted) => (st, .outcome (.applied none))
  | _, (_, .uncertain) => (st, .uncertain)
  | _, (_, .invalidState) => (st, .retryable)
  | .late, (row, .fresh) => (⟨st.entries, setClaim (effectSinkRelease row)⟩, .retryable)
  | .none, (row, .fresh) =>
    match o.run st.entries with
    | .error e =>
      (⟨st.entries, setClaim (effectSinkRelease row)⟩, .outcome (.discarded (o.terminalError e)))
    | .ok (ws, revision) =>
      match effectSinkComplete row with
      | (row, true) => (⟨ws, setClaim row⟩, .outcome (.applied revision))
      | (row, false) => (⟨ws, setClaim row⟩, .retryable)

/-! ## The batch -/

/-- The choices of the environment in one delivery: which children raise, and in which order the
children of a wave get to the database. -/
structure BatchDelivery where
  faults : String → Fault
  schedule : List Operation → List Operation
  perm : ∀ w, (schedule w).Perm w

/-- No child raises, and the children of a wave run in list order. -/
def BatchDelivery.plain : BatchDelivery := ⟨fun _ => .none, id, fun _ => .refl _⟩

def runChildren (faults : String → Fault) :
    List Operation → BatchState → BatchState × List (String × ChildResult)
  | [], st => (st, [])
  | o :: w, st =>
    let first := applyWorkspaceBatchOperation (faults o.subEffectId) o st
    let rest := runChildren faults w first.1
    (rest.1, (o.subEffectId, first.2) :: rest.2)

inductive BatchError where
  | invalidOperation | uncertain | retryable
  deriving DecidableEq, Repr

def ChildResult.status? : ChildResult → Option ItemStatus
  | .outcome s => some s
  | _ => none

/-- The loop over the waves; it collects `outcomes`. Uncertainty dominates every other error. -/
def runWaves (d : BatchDelivery) : List (List Operation) → BatchState →
    BatchState × Except BatchError (List (String × ItemStatus))
  | [], st => (st, .ok [])
  | w :: ws, st =>
    let children := runChildren d.faults (d.schedule w) st
    if children.2.any (fun r => r.2 == .uncertain) then (children.1, .error .uncertain)
    else if children.2.any (fun r => r.2 == .retryable) then (children.1, .error .retryable)
    else
      let rest := runWaves d ws children.1
      (rest.1, rest.2.map (children.2.filterMap (fun r => r.2.status?.map (r.1, ·)) ++ ·))

/-- `WorkspaceBatchAppliedResult`. -/
structure BatchResult where
  items : List (String × ItemStatus)
  status : EffectStatus
  deriving DecidableEq, Repr

/-- The items in the order of the operations; a missing one is an error. -/
def orderedItems (operations : List Operation) (outcomes : List (String × ItemStatus)) :
    Option (List (String × ItemStatus)) :=
  operations.mapM fun o => (outcomes.find? fun r => r.1 == o.subEffectId).map fun r =>
    (o.subEffectId, r.2)

/-- `_sink_workspace_batch`. -/
def sinkWorkspaceBatch (d : BatchDelivery) (operations : List Operation) (st : BatchState) :
    BatchState × Except BatchError BatchResult :=
  match prepareOperations operations with
  | none => (st, .error .invalidOperation)
  | some prepared =>
    let (st, outcomes) := runWaves d (workspaceMutationWaves prepared) st
    match outcomes with
    | .error e => (st, .error e)
    | .ok outcomes =>
      match orderedItems operations outcomes with
      | none => (st, .error .retryable)
      | some items =>
        (st, .ok ⟨items, if items.any (fun r => !r.2.isApplied) then .appliedWithResults
            else .applied⟩)

/-! ## One execution in order -/

/-- The operation as the compare-and-swap functions decide it. -/
def Operation.accepts (o : Operation) (ws : Entries) : Bool := (o.run ws).toOption.isSome

/-- The workspace after the operation, applied or rejected. -/
def Operation.execute (o : Operation) (ws : Entries) : Entries :=
  ((o.run ws).toOption.map (·.1)).getD ws

/-- The workspace after the first `m` operations, one at a time and in list order. -/
def entriesAfter (operations : List Operation) (ws : Entries) (m : Nat) : Entries :=
  (operations.take m).foldl (fun ws o => o.execute ws) ws

/-- Each operation's status in that execution. -/
def statusesInOrder (operations : List Operation) (ws : Entries) : List (String × Bool) :=
  operations.zipIdx.map fun (o, i) => (o.subEffectId, o.accepts (entriesAfter operations ws i))

/-- An operation that is rejected in order would be rejected at every later point of the
execution. -/
def RejectionsStay (operations : List Operation) (ws : Entries) : Prop :=
  ∀ i (o : Operation), operations[i]? = some o → o.accepts (entriesAfter operations ws i) = false →
    ∀ m, i < m → o.accepts (entriesAfter operations ws m) = false

def afterDeliveries (ds : List BatchDelivery) (operations : List Operation) (ws : Entries) :
    BatchState :=
  ds.foldl (fun st d => (sinkWorkspaceBatch d operations st).1) ⟨ws, fun _ => none⟩

/-- Whatever children raise in whatever deliveries: if the last one returns a result, contents,
revisions and statuses are those of one execution in order. -/
def RedeliveryInOrder (operations : List Operation) (ws : Entries) : Prop :=
  ∀ ds d st r, sinkWorkspaceBatch d operations (afterDeliveries ds operations ws) = (st, .ok r) →
    ∀ prepared, prepareOperations operations = some prepared →
      st.entries = entriesAfter prepared ws prepared.length ∧
      r.items.map (fun item => (item.1, item.2.isApplied)) = statusesInOrder prepared ws

/-! ## The batch as guarded updates of cells -/

/-- What the operation does to the row of its path; `none` if it is rejected. -/
def Operation.act (o : Operation) (cell : Option Entry) : Option (Option Entry) :=
  match o.mutation with
  | .write content =>
    match kindForPath o.path with
    | .ok kind =>
      if kind ≠ .artifact ∧ contentFits o.path content = true then
        (putCell kind content "text/markdown" "" o.expectedRevision cell).map some
      else none
    | .error _ => none
  | .delete => if deletes o.expectedRevision cell then some none else none

def Operation.task (o : Operation) : Task String String (Option Entry) :=
  ⟨o.subEffectId, o.path, o.act⟩

section Child

variable {o : Operation} (hpath : modelWritablePath o.path = .ok o.path) (ws : Entries)

include hpath

theorem Operation.run_eq :
    (∃ cell revision, o.act (ws o.path) = some cell ∧
      o.run ws = .ok (Function.update ws o.path cell, revision)) ∨
    ∃ e, o.act (ws o.path) = none ∧ o.run ws = .error e := by
  cases hm : o.mutation with
  | write content =>
    cases hk : kindForPath o.path with
    | error e =>
      refine .inr ⟨e, by simp [Operation.act, hm, hk], ?_⟩
      simp [Operation.run, hm, Backend.write, hpath, hk, bind, Except.bind, Except.map]
    | ok kind =>
      simp only [Operation.act, Operation.run, hm, hk, Backend.write, hpath, bind, Except.bind]
      cases hfits : contentFits o.path content with
      | false => exact .inr ⟨.failed, by simp, rfl⟩
      | true =>
        by_cases hart : kind = .artifact
        · refine .inr ⟨.conflict, by simp [hart], ?_⟩
          simp [putWorkspaceEntryCas, hart, Except.map, throw, throwThe, MonadExceptOf.throw]
        · cases hput : putCell kind content "text/markdown" "" o.expectedRevision (ws o.path) with
          | none =>
            refine .inr ⟨.conflict, by simp, ?_⟩
            simp [putWorkspaceEntryCas, hart, hput, Except.map, throw, throwThe,
              MonadExceptOf.throw]
          | some entry =>
            refine .inl ⟨some entry, some entry.revision, by simp [hart], ?_⟩
            simp [putWorkspaceEntryCas, hart, hput, Except.map, pure, Except.pure]
  | delete =>
    simp only [Operation.act, Operation.run, hm, Backend.delete, hpath, bind, Except.bind]
    cases hd : deletes o.expectedRevision (ws o.path) with
    | true =>
      refine .inl ⟨none, none, by simp, ?_⟩
      simp [deleteWorkspaceEntryCas, hd, Except.map, pure, Except.pure]
    | false =>
      refine .inr ⟨.conflict, by simp, ?_⟩
      simp [deleteWorkspaceEntryCas, hd, Except.map, throw, throwThe, MonadExceptOf.throw]

theorem Operation.accepts_eq : o.accepts ws = o.task.accepts ws := by
  obtain ⟨cell, revision, hact, hrun⟩ | ⟨e, hact, hrun⟩ := Operation.run_eq hpath ws
  · simp [Operation.accepts, Task.accepts, Operation.task, hact, hrun, Except.toOption]
  · simp [Operation.accepts, Task.accepts, Operation.task, hact, hrun, Except.toOption]

theorem Operation.execute_eq : o.execute ws = o.task.run ws := by
  obtain ⟨cell, revision, hact, hrun⟩ | ⟨e, hact, hrun⟩ := Operation.run_eq hpath ws
  · simp [Operation.execute, Task.run, Operation.task, hact, hrun, Except.toOption]
  · simp [Operation.execute, Task.run, Operation.task, hact, hrun, Except.toOption]

end Child

/-- The answer a child gives, as the abstract batch knows it. -/
def ChildResult.answer : ChildResult → Answer
  | .outcome (.applied _) => .applied
  | .outcome (.discarded _) => .rejected
  | .retryable | .uncertain => .raised

/-- Between two children no claim is open: the claims are the marks of the abstract batch. -/
structure Simulates (st : BatchState) (s : Progress String String (Option Entry)) : Prop where
  entries : st.entries = s.cells
  claims : ∀ k, st.claims k = if s.done k then some .completed else none

theorem start_simulates (ws : Entries) : Simulates ⟨ws, fun _ => none⟩ (start ws) :=
  ⟨rfl, fun _ => rfl⟩

section Simulation

variable {st : BatchState} {s : Progress String String (Option Entry)}

/-- A child releases or completes its claim: what it leaves is one attempt of its task. -/
theorem child_simulates (h : Simulates st s) {o : Operation}
    (hpath : modelWritablePath o.path = .ok o.path) (f : Fault) :
    Simulates (applyWorkspaceBatchOperation f o st).1 (attempt f o.task s).1 ∧
      (applyWorkspaceBatchOperation f o st).2.answer = (attempt f o.task s).2 ∧
      (applyWorkspaceBatchOperation f o st).2 ≠ .uncertain := by
  have hclaim := h.claims o.subEffectId
  have hid : o.task.id = o.subEffectId := rfl
  by_cases hearly : f = .early
  · subst hearly
    exact ⟨h, rfl, by simp [applyWorkspaceBatchOperation]⟩
  · cases hdone : s.done o.subEffectId with
    | true =>
      rw [attempt_done hearly hdone]
      simp only [hdone, if_true] at hclaim
      cases f with
      | early => exact absurd rfl hearly
      | none | late =>
        simp only [applyWorkspaceBatchOperation, hclaim, effectSinkClaim, sinkInsert, sinkLookup]
        exact ⟨h, rfl, by simp⟩
    | false =>
      simp only [hdone, Bool.false_eq_true, if_false] at hclaim
      have hrelease : ∀ k, Function.update st.claims o.subEffectId none k =
          if s.done k then some .completed else none := by
        intro k
        by_cases hk : k = o.subEffectId
        · subst hk
          simp [hdone]
        · simp [hk, h.claims]
      cases f with
      | early => exact absurd rfl hearly
      | late =>
        rw [attempt_late hdone]
        simp only [applyWorkspaceBatchOperation, hclaim, effectSinkClaim, sinkInsert,
          effectSinkRelease]
        exact ⟨⟨h.entries, hrelease⟩, rfl, by simp⟩
      | none =>
        simp only [applyWorkspaceBatchOperation, hclaim, effectSinkClaim, sinkInsert,
          effectSinkRelease, effectSinkComplete]
        obtain ⟨cell, revision, hact, hrun⟩ | ⟨e, hact, hrun⟩ := Operation.run_eq hpath st.entries
        · rw [h.entries] at hact
          rw [attempt_accepts (t := o.task) hdone hact, hrun, h.entries]
          refine ⟨⟨rfl, fun k => ?_⟩, rfl, by simp⟩
          by_cases hk : k = o.subEffectId
          · subst hk
            simp [hid]
          · simp [hk, hid, h.claims]
        · rw [h.entries] at hact
          rw [attempt_rejects (t := o.task) hdone hact, hrun]
          exact ⟨⟨h.entries, hrelease⟩, rfl, by simp⟩

theorem children_simulate (f : String → Fault) {w : List Operation}
    (hw : ∀ o ∈ w, modelWritablePath o.path = .ok o.path) (h : Simulates st s) :
    Simulates (runChildren f w st).1 (runWave f (w.map Operation.task) s).1 ∧
      (runChildren f w st).2.map (fun r => (r.1, r.2.answer)) =
        (runWave f (w.map Operation.task) s).2 ∧
      ∀ r ∈ (runChildren f w st).2, r.2 ≠ .uncertain := by
  induction w generalizing st s with
  | nil => exact ⟨h, rfl, by simp [runChildren]⟩
  | cons o w ih =>
    obtain ⟨hfirst, hanswer, hcertain⟩ := child_simulates h (hw o (by simp)) (f o.subEffectId)
    obtain ⟨hrest, hanswers, hcertains⟩ := ih (fun o' ho' => hw o' (by simp [ho'])) hfirst
    refine ⟨hrest, ?_, ?_⟩
    · simp only [runChildren, runWave, List.map_cons, hanswer, hanswers]
      rfl
    · simp only [runChildren, List.mem_cons, forall_eq_or_imp]
      exact ⟨hcertain, hcertains⟩

def ItemStatus.answer (s : ItemStatus) : Answer := if s.isApplied then .applied else .rejected

theorem outcomes_answer {results : List (String × ChildResult)}
    (h : ∀ r ∈ results, r.2 ≠ .retryable ∧ r.2 ≠ .uncertain) :
    (results.filterMap fun r => r.2.status?.map (r.1, ·)).map (fun r => (r.1, r.2.answer)) =
      results.map fun r => (r.1, r.2.answer) := by
  induction results with
  | nil => rfl
  | cons r results ih =>
    have hrest := ih fun r' hr' => h r' (by simp [hr'])
    obtain ⟨hretry, huncertain⟩ := h r (by simp)
    obtain ⟨k, result⟩ := r
    cases result with
    | outcome status =>
      have hcons : ((k, ChildResult.outcome status) :: results).filterMap
        (fun r => r.2.status?.map (r.1, ·)) =
          (k, status) :: results.filterMap (fun r => r.2.status?.map (r.1, ·)) := rfl
      rw [hcons, List.map_cons, List.map_cons, hrest]
      cases status <;> rfl
    | retryable => exact absurd rfl hretry
    | uncertain => exact absurd rfl huncertain

theorem ChildResult.answer_raised {r : ChildResult} (h : r ≠ .uncertain) :
    (r.answer == .raised) = (r == .retryable) := by
  cases r with
  | outcome s => cases s <;> rfl
  | retryable => rfl
  | uncertain => exact absurd rfl h

/-- The loop over the waves is a delivery: both raise, or both return the same statuses. -/
theorem waves_simulate (d : BatchDelivery) {ws : List (List Operation)}
    (hws : ∀ w ∈ ws, ∀ o ∈ w, modelWritablePath o.path = .ok o.path) (h : Simulates st s) :
    Simulates (runWaves d ws st).1
      (deliver d.faults (ws.map fun w => (d.schedule w).map Operation.task) s).1 ∧
        (((∃ e, (runWaves d ws st).2 = .error e) ∧
          (deliver d.faults (ws.map fun w => (d.schedule w).map Operation.task) s).2 = none) ∨
      ∃ outcomes as, (runWaves d ws st).2 = .ok outcomes ∧
        (deliver d.faults (ws.map fun w => (d.schedule w).map Operation.task) s).2 = some as ∧
        as = outcomes.map fun r => (r.1, r.2.answer)) := by
  induction ws generalizing st s with
  | nil => exact ⟨h, .inr ⟨[], [], rfl, rfl, rfl⟩⟩
  | cons w ws ih =>
    have hw : ∀ o ∈ d.schedule w, modelWritablePath o.path = .ok o.path :=
      fun o ho => hws w (by simp) o ((d.perm w).mem_iff.mp ho)
    obtain ⟨hstate, hanswers, hcertain⟩ := children_simulate d.faults hw h
    obtain ⟨hrest, hresult⟩ := ih (fun w' hw' => hws w' (by simp [hw'])) hstate
    have huncertain : (runChildren d.faults (d.schedule w) st).2.any (fun r => r.2 == .uncertain) =
        false := by
      simpa using hcertain
    have hraised : (runWave d.faults ((d.schedule w).map Operation.task) s).2.any
        (fun a => a.2 == .raised) =
          (runChildren d.faults (d.schedule w) st).2.any (fun r => r.2 == .retryable) := by
      rw [← hanswers, List.any_map, Bool.eq_iff_iff, List.any_eq_true, List.any_eq_true]
      constructor
      · rintro ⟨r, hr, hraise⟩
        exact ⟨r, hr, (ChildResult.answer_raised (hcertain r hr)).symm.trans hraise⟩
      · rintro ⟨r, hr, hretry⟩
        exact ⟨r, hr, (ChildResult.answer_raised (hcertain r hr)).trans hretry⟩
    simp only [runWaves, deliver, List.map_cons, huncertain, hraised, Bool.false_eq_true, if_false]
    cases hretry : (runChildren d.faults (d.schedule w) st).2.any (fun r => r.2 == .retryable) with
    | true => exact ⟨hstate, .inl ⟨⟨_, rfl⟩, rfl⟩⟩
    | false =>
      simp only [Bool.false_eq_true, if_false]
      refine ⟨hrest, ?_⟩
      obtain ⟨⟨e, he⟩, hnone⟩ | ⟨outcomes, as, hout, has, rfl⟩ := hresult
      · rw [he, hnone]
        exact .inl ⟨⟨e, rfl⟩, rfl⟩
      · rw [hout, has]
        refine .inr ⟨_, _, rfl, rfl, ?_⟩
        have hreturned : ∀ r ∈ (runChildren d.faults (d.schedule w) st).2, r.2 ≠ .retryable ∧
            r.2 ≠ .uncertain :=
          fun r hr => ⟨by simpa using List.any_eq_false.mp hretry r hr, hcertain r hr⟩
        rw [List.map_append, outcomes_answer hreturned, ← hanswers]

end Simulation

/-! ## Operations, waves and ids -/

theorem workspaceMutationWaves_eq (prepared : List Operation) :
    workspaceMutationWaves prepared =
      Waves.waves (fun o existing => workspacePathsConflict o.path existing.path) prepared :=
  rfl

/-- The waves are the operations in order, and the operations of a wave are on different paths. -/
theorem workspaceMutationWaves_spec (prepared : List Operation) :
    (workspaceMutationWaves prepared).flatten = prepared ∧
      ∀ w ∈ workspaceMutationWaves prepared, w.Pairwise fun o o' => o.path ≠ o'.path := by
  rw [workspaceMutationWaves_eq]
  obtain ⟨hflat, hfree⟩ := Waves.waves_spec (fun o existing : Operation =>
      workspacePathsConflict o.path existing.path) prepared
  refine ⟨hflat, fun w hw => (hfree w hw).2.imp fun hconflict hpath => ?_⟩
  simp [workspacePathsConflict, hpath] at hconflict

theorem forall₂_of_mapM {α β : Type} {f : α → Option β} {l : List α} {l' : List β}
    (h : l.mapM f = some l') : List.Forall₂ (fun a b => f a = some b) l l' := by
  induction l generalizing l' with
  | nil =>
    cases h
    exact .nil
  | cons a l ih =>
    rw [List.mapM_cons] at h
    obtain ⟨b, hb, h⟩ := Option.bind_eq_some_iff.mp h
    obtain ⟨bs, hbs, h⟩ := Option.bind_eq_some_iff.mp h
    cases h
    exact .cons hb (ih hbs)

section Prepared

variable {operations prepared : List Operation}

theorem prepareOperations_spec (h : prepareOperations operations = some prepared) :
    prepared.map (·.subEffectId) = operations.map (·.subEffectId) ∧
      ∀ o ∈ prepared, modelWritablePath o.path = .ok o.path := by
  have hall := forall₂_of_mapM h
  clear h
  induction hall with
  | nil => exact ⟨rfl, by simp⟩
  | @cons o o' operations prepared ho _ ih =>
    obtain ⟨path, hpath, rfl⟩ := Option.map_eq_some_iff.mp ho
    have hok : modelWritablePath o.path = .ok path := by
      cases hw : modelWritablePath o.path with
      | error e => simp [hw, Except.toOption] at hpath
      | ok p => simpa [hw, Except.toOption] using hpath
    constructor
    · simp [ih.1]
    · intro o' ho'
      obtain rfl | ho' := List.mem_cons.mp ho'
      · exact modelWritablePath_again hok
      · exact ih.2 o' ho'

theorem deriveBatchItem_injective (parent : String) {i j : Nat}
    (h : deriveBatchItem parent i = deriveBatchItem parent j) : i = j := by
  have hlists := congrArg String.toList h
  simp only [deriveBatchItem, String.toList_append] at hlists
  have hrepr : i.repr.toList = j.repr.toList := List.append_cancel_left hlists
  rw [Nat.repr_eq_ofList_toDigits, Nat.repr_eq_ofList_toDigits, String.toList_ofList,
    String.toList_ofList] at hrepr
  rw [← Nat.ofDigitChars_toDigits (b := 10) (n := i), hrepr, Nat.ofDigitChars_toDigits] <;> decide

theorem validateBatch_ids {parent : String} (h : validateBatch parent operations = true) :
    (operations.map (·.subEffectId)).Nodup := by
  have hids : ∀ i (o : Operation), operations[i]? = some o →
      o.subEffectId = deriveBatchItem parent i := by
    intro i o ho
    simp only [validateBatch, Bool.and_eq_true, List.all_eq_true] at h
    have hmem : (o, i) ∈ operations.zipIdx := List.mem_zipIdx_iff_getElem?.mpr ho
    simpa using (h.2 (o, i) hmem).1
  rw [List.nodup_iff_getElem?_ne_getElem?]
  intro i j hij hj heq
  have hj' : j < operations.length := by simpa using hj
  have hoi := List.getElem?_eq_getElem (Nat.lt_trans hij hj')
  have hoj := List.getElem?_eq_getElem hj'
  rw [List.getElem?_map, List.getElem?_map, hoi, hoj] at heq
  have hid : operations[i].subEffectId = operations[j].subEffectId := by simpa using heq
  rw [hids i _ hoi, hids j _ hoj] at hid
  exact absurd (deriveBatchItem_injective parent hid) (by omega)

end Prepared

/-! ## The sink as a delivery of the abstract batch -/

section Sink

variable {operations prepared : List Operation}

/-- The same delivery, of tasks. -/
def BatchDelivery.delivery (d : BatchDelivery) (prepared : List Operation) :
    Redelivery.Delivery (prepared.map Operation.task) where
  faults := d.faults
  waves := (workspaceMutationWaves prepared).map fun w => (d.schedule w).map Operation.task
  ok := by
    obtain ⟨hflat, hapart⟩ := workspaceMutationWaves_spec prepared
    have hwaves : Waves ((workspaceMutationWaves prepared).flatMap fun w => w.map Operation.task)
        ((workspaceMutationWaves prepared).map fun w => (d.schedule w).map Operation.task) :=
      Waves.of_parts (fun w _ => (d.perm w).map _) (fun w hw => List.pairwise_map.mpr (hapart w hw))
    rwa [List.flatMap_def, ← List.map_flatten, hflat] at hwaves

/-- The items list every operation with the one answer that its task gave. -/
def ItemsOf (prepared : List Operation) (items : List (String × ItemStatus))
    (as : List (String × Answer)) : Prop :=
  List.Forall₂ (fun o item => item.1 = o.subEffectId ∧ ∀ a, (o.subEffectId, a) ∈ as ↔
      a = item.2.answer)
    prepared items

theorem mem_answers_iff {outcomes : List (String × ItemStatus)} (hids : (outcomes.map (·.1)).Nodup)
    {k : String} {status : ItemStatus} (h : (k, status) ∈ outcomes) (a : Answer) :
    (k, a) ∈ outcomes.map (fun r => (r.1, r.2.answer)) ↔ a = status.answer := by
  constructor
  · intro ha
    obtain ⟨r, hr, heq⟩ := List.mem_map.mp ha
    cases heq
    rw [List.inj_on_of_nodup_map hids hr h rfl]
  · rintro rfl
    exact List.mem_map.mpr ⟨_, h, rfl⟩

/-- Every operation has its outcome, so the result is complete. -/
theorem orderedItems_spec {outcomes : List (String × ItemStatus)}
    (hids : (outcomes.map (·.1)).Nodup) (hall : ∀ o ∈ prepared, o.subEffectId ∈ outcomes.map (·.1))
    (hsame : prepared.map (·.subEffectId) = operations.map (·.subEffectId)) :
    ∃ items, orderedItems operations outcomes = some items ∧
      ItemsOf prepared items (outcomes.map fun r => (r.1, r.2.answer)) := by
  induction prepared generalizing operations with
  | nil =>
    have hnil : operations = [] := by simpa using hsame.symm
    subst hnil
    exact ⟨[], rfl, .nil⟩
  | cons o prepared ih =>
    cases operations with
    | nil => simp at hsame
    | cons o' operations =>
      obtain ⟨hid, hsame⟩ := List.cons.inj hsame
      obtain ⟨items, hitems, hforall⟩ := ih (fun o ho => hall o (by simp [ho])) hsame
      obtain ⟨r, hr⟩ : ∃ r, outcomes.find? (fun r => r.1 == o'.subEffectId) = some r := by
        obtain ⟨r, hmem, hkey⟩ := List.mem_map.mp (hall o (by simp))
        apply Option.isSome_iff_exists.mp
        rw [List.find?_isSome]
        exact ⟨r, hmem, by simp [hkey, hid]⟩
      have hkey : r.1 = o.subEffectId := by
        have hfound := List.find?_some hr
        simp only [beq_iff_eq] at hfound
        exact hfound.trans hid.symm
      have hmem : (o.subEffectId, r.2) ∈ outcomes := hkey ▸ List.mem_of_find?_eq_some hr
      refine ⟨(o'.subEffectId, r.2) :: items, ?_,
        .cons ⟨hid.symm, mem_answers_iff hids hmem⟩ hforall⟩
      rw [orderedItems] at hitems
      simp [orderedItems, List.mapM_cons, hr, hitems]

section

variable (hprepared : prepareOperations operations = some prepared)
  (hids : (operations.map (·.subEffectId)).Nodup)
include hprepared hids

/-- One delivery of the payload is one delivery of its tasks. -/
theorem sink_simulates (d : BatchDelivery) {st : BatchState}
    {s : Progress String String (Option Entry)} (h : Simulates st s) :
    Simulates (sinkWorkspaceBatch d operations st).1 ((d.delivery prepared).run s).1 ∧
      (((∃ e, (sinkWorkspaceBatch d operations st).2 = .error e) ∧
        ((d.delivery prepared).run s).2 = none) ∨
      ∃ r as, (sinkWorkspaceBatch d operations st).2 = .ok r ∧
        ((d.delivery prepared).run s).2 = some as ∧ ItemsOf prepared r.items as) := by
  obtain ⟨hsame, hpaths⟩ := prepareOperations_spec hprepared
  obtain ⟨hflat, -⟩ := workspaceMutationWaves_spec prepared
  have hwaves : ∀ w ∈ workspaceMutationWaves prepared, ∀ o ∈ w,
      modelWritablePath o.path = .ok o.path := by
    intro w hw o ho
    apply hpaths
    rw [← hflat]
    exact List.mem_flatten_of_mem hw ho
  obtain ⟨hstate, hresult⟩ := waves_simulate d hwaves h
  have hrun : (d.delivery prepared).run s =
      deliver d.faults ((workspaceMutationWaves prepared).map fun w =>
        (d.schedule w).map Operation.task) s := rfl
  rw [← hrun] at hstate hresult
  simp only [sinkWorkspaceBatch, hprepared]
  obtain ⟨⟨e, he⟩, hnone⟩ | ⟨outcomes, as, hout, has, rfl⟩ := hresult
  · rw [he]
    exact ⟨hstate, .inl ⟨⟨e, rfl⟩, hnone⟩⟩
  · have hperm := deliver_ids (d.delivery prepared).ok has
    rw [List.map_map, List.map_map] at hperm
    have hkeys : (outcomes.map (·.1)).Perm (prepared.map (·.subEffectId)) := hperm
    obtain ⟨items, hitems, hitemsOf⟩ := orderedItems_spec (hkeys.nodup_iff.mpr (hsame ▸ hids))
      (fun o ho => hkeys.mem_iff.mpr (List.mem_map.mpr ⟨o, ho, rfl⟩)) hsame
    simp only [hout, hitems]
    exact ⟨hstate, .inr ⟨_, _, rfl, has, hitemsOf⟩⟩

theorem afterDeliveries_simulates (ds : List BatchDelivery) (ws : Entries) :
    Simulates (afterDeliveries ds operations ws) (deliverAll (ds.map (·.delivery prepared))
      (start ws)) := by
  rw [afterDeliveries, deliverAll]
  have hstart := start_simulates ws
  generalize start ws = s at hstart ⊢
  generalize BatchState.mk ws (fun _ => none) = st at hstart ⊢
  induction ds generalizing st s with
  | nil => exact hstart
  | cons d ds ih => exact ih _ _ (sink_simulates hprepared hids d hstart).1

end

end Sink

/-! ## The execution in order, of operations and of tasks -/

section InOrder

variable {prepared : List Operation} {ws : Entries}

section

variable (hpaths : ∀ o ∈ prepared, modelWritablePath o.path = .ok o.path)
include hpaths

theorem entriesAfter_eq (m : Nat) :
    entriesAfter prepared ws m = after (prepared.map Operation.task) ws m := by
  have htake : ∀ o ∈ prepared.take m, modelWritablePath o.path = .ok o.path :=
    fun o ho => hpaths o (List.mem_of_mem_take ho)
  rw [entriesAfter, after, ← List.map_take, List.foldl_map]
  generalize prepared.take m = front at htake
  induction front generalizing ws with
  | nil => rfl
  | cons o front ih =>
    rw [List.foldl_cons, List.foldl_cons, Operation.execute_eq (htake o (by simp)) ws]
    exact ih fun o' ho' => htake o' (by simp [ho'])

theorem accepts_entriesAfter {i m : Nat} {o : Operation} (ho : prepared[i]? = some o) :
    o.accepts (entriesAfter prepared ws m) =
      o.task.accepts (after (prepared.map Operation.task) ws m) := by
  rw [entriesAfter_eq hpaths]
  exact Operation.accepts_eq (hpaths o (List.mem_of_getElem? ho)) _

theorem accepted_task {i : Nat} {o : Operation} (ho : prepared[i]? = some o) :
    accepted (prepared.map Operation.task) ws i = o.accepts (entriesAfter prepared ws i) := by
  rw [accepts_entriesAfter hpaths ho]
  exact accepted_eq (by simp [ho])

theorem rejectionsStay_iff :
    RejectionsStay prepared ws ↔ StaysRejected (prepared.map Operation.task) ws := by
  constructor
  · intro h i t ht hrejected m him
    obtain ⟨o, ho, rfl⟩ : ∃ o, prepared[i]? = some o ∧ o.task = t := by simpa using ht
    rw [accepted_task hpaths ho] at hrejected
    rw [← accepts_entriesAfter hpaths ho]
    exact h i o ho hrejected m him
  · intro h i o ho hrejected m him
    rw [← accepted_task hpaths ho] at hrejected
    rw [accepts_entriesAfter hpaths ho]
    exact h i o.task (by simp [ho]) hrejected m him

theorem statuses_iff {items : List (String × ItemStatus)} {as : List (String × Answer)}
    (h : ItemsOf prepared items as) :
    items.map (fun item => (item.1, item.2.isApplied)) = statusesInOrder prepared ws ↔
      ∀ i t, (prepared.map Operation.task)[i]? = some t → ∀ a, (t.id, a) ∈ as →
        a = answerAt (prepared.map Operation.task) ws i := by
  have hlength := h.length_eq
  -- the item of an operation, its answer and the answer in order
  have hat : ∀ (i : Nat) (o : Operation), prepared[i]? = some o → ∃ item : String × ItemStatus,
      items[i]? = some item ∧
        item.1 = o.subEffectId ∧ ∀ a, (o.subEffectId, a) ∈ as ↔ a = item.2.answer := by
    intro i o ho
    obtain ⟨hi, rfl⟩ := List.getElem?_eq_some_iff.mp ho
    have hi' : i < items.length := by omega
    exact ⟨items[i], List.getElem?_eq_getElem hi', (List.forall₂_iff_get.mp h).2 i hi hi'⟩
  have hanswer : ∀ status : ItemStatus, ∀ b : Bool,
      status.isApplied = b ↔ status.answer = if b then .applied else .rejected := by
    intro status b
    cases status <;> cases b <;> simp [ItemStatus.isApplied, ItemStatus.answer]
  rw [statusesInOrder]
  constructor
  · intro heq i t ht a ha
    obtain ⟨o, ho, rfl⟩ : ∃ o, prepared[i]? = some o ∧ o.task = t := by simpa using ht
    obtain ⟨item, hitem, hkey, has⟩ := hat i o ho
    have hi := congrArg (·[i]?) heq
    simp only [List.getElem?_map, List.getElem?_zipIdx, hitem, ho, Option.map_some,
      Option.some.injEq, Prod.mk.injEq, Nat.zero_add] at hi
    rw [(has a).mp ha, answerAt, accepted_task hpaths ho]
    exact (hanswer _ _).mp hi.2
  · intro hall
    apply List.ext_getElem?
    intro i
    rw [List.getElem?_map, List.getElem?_map, List.getElem?_zipIdx]
    cases ho : prepared[i]? with
    | none =>
      have hnone : items[i]? = none := by
        rw [List.getElem?_eq_none_iff] at ho ⊢
        omega
      simp [hnone]
    | some o =>
      obtain ⟨item, hitem, hkey, has⟩ := hat i o ho
      have ha := hall i o.task (by simp [ho]) item.2.answer ((has _).mpr rfl)
      rw [answerAt, accepted_task hpaths ho] at ha
      simp [hitem, hkey, (hanswer _ _).mpr ha]

end

end InOrder

/-- Redeliveries of an accepted batch amount to one execution in order just when every rejection of
that execution is final. A rejected child gives its claim back and is run again by the next
delivery, on a workspace that its successors have changed. -/
theorem redelivery_in_order_iff (parentEffectId : String) (operations : List Operation)
    (ws : Entries) (hvalid : validateBatch parentEffectId operations = true) :
    RedeliveryInOrder operations ws ↔
      ∀ prepared, prepareOperations operations = some prepared → RejectionsStay prepared ws := by
  have hids := validateBatch_ids hvalid
  constructor
  · intro h prepared hprepared
    obtain ⟨hsame, hpaths⟩ := prepareOperations_spec hprepared
    have htaskIds : ((prepared.map Operation.task).map (·.id)).Nodup := by
      rw [List.map_map]
      exact (show (prepared.map (·.subEffectId)).Nodup from hsame ▸ hids)
    rw [rejectionsStay_iff hpaths]
    by_contra hstay
    obtain ⟨d, d', hd, hd', -, -, as, has, hdisorder⟩ :=
      exists_disorder htaskIds hstay (BatchDelivery.plain.delivery prepared).ok (by
        show ((workspaceMutationWaves prepared).map fun w => w.map Operation.task).flatten = _
        rw [← List.map_flatten, (workspaceMutationWaves_spec prepared).1])
    -- the same two deliveries of the payload, with the children of a wave in list order
    let c : BatchDelivery := ⟨d.faults, id, fun _ => .refl _⟩
    let c' : BatchDelivery := ⟨d'.faults, id, fun _ => .refl _⟩
    have hc : c.delivery prepared = d := by
      cases d
      cases hd
      rfl
    have hc' : c'.delivery prepared = d' := by
      cases d'
      cases hd'
      rfl
    have hbefore := afterDeliveries_simulates hprepared hids [c] ws
    obtain ⟨hstate, hresult⟩ := sink_simulates hprepared hids c' hbefore
    rw [List.map_singleton, hc, hc'] at hstate hresult
    obtain ⟨-, hnone⟩ | ⟨r, as', hr, has', hitems⟩ := hresult
    · rw [has] at hnone
      cases hnone
    · rw [has] at has'
      cases has'
      obtain ⟨hentries, hstatuses⟩ := h [c] c' _ r (Prod.ext rfl hr) prepared hprepared
      apply hdisorder
      constructor
      · rw [← hstate.entries, hentries, entriesAfter_eq hpaths, List.length_map]
      · exact (statuses_iff hpaths hitems).mp hstatuses
  · intro h ds d st r hrun prepared hprepared
    obtain ⟨hsame, hpaths⟩ := prepareOperations_spec hprepared
    have htaskIds : ((prepared.map Operation.task).map (·.id)).Nodup := by
      rw [List.map_map]
      exact (show (prepared.map (·.subEffectId)).Nodup from hsame ▸ hids)
    have hstay := (rejectionsStay_iff hpaths).mp (h prepared hprepared)
    obtain ⟨hstate, hresult⟩ :=
      sink_simulates hprepared hids d (afterDeliveries_simulates hprepared hids ds ws)
    rw [hrun] at hstate hresult
    obtain ⟨⟨e, he⟩, -⟩ | ⟨r', as, hr, has, hitems⟩ := hresult
    · cases he
    · cases hr
      obtain ⟨hcells, hanswers⟩ := in_order_of_staysRejected htaskIds hstay _ _ has
      constructor
      · rw [hstate.entries, hcells, entriesAfter_eq hpaths, List.length_map]
      · exact (statuses_iff hpaths hitems).mpr hanswers

/-- A create and a replacement, both accepted in order. -/
def createThenReplace : List Operation :=
  [⟨.write "a", "/workspace/p", 0, "e:item:0"⟩, ⟨.write "b", "/workspace/p", 1, "e:item:1"⟩]

theorem redelivery_in_order_of_createThenReplace :
    validateBatch "e" createThenReplace = true ∧
      RedeliveryInOrder createThenReplace (fun _ => none) := by
  have hvalid : validateBatch "e" createThenReplace = true := by decide +kernel
  refine ⟨hvalid, (redelivery_in_order_iff "e" createThenReplace _ hvalid).mpr ?_⟩
  have hsame : prepareOperations createThenReplace = some createThenReplace := by decide +kernel
  have haccepted : ∀ p ∈ createThenReplace.zipIdx,
      p.1.accepts (entriesAfter createThenReplace (fun _ => none) p.2) = true := by
    decide +kernel
  intro prepared hprepared
  rw [← Option.some.inj (hsame.symm.trans hprepared)]
  intro i o ho hrejected
  have hlisted := haccepted (o, i) (List.mem_zipIdx_iff_getElem?.mpr ho)
  rw [hrejected] at hlisted
  cases hlisted

/-- The first write expects a revision that only the second one creates. -/
def lateFit : List Operation :=
  [⟨.write "old", "/workspace/p", 1, "e:item:0"⟩, ⟨.write "new", "/workspace/p", 0, "e:item:1"⟩,
    ⟨.write "z", "/workspace/q", 0, "e:item:2"⟩]

def thirdRaises : BatchDelivery := ⟨fun k => if k = "e:item:2" then .late else .none, id,
    fun _ => .refl _⟩

/-- In order the first write is rejected and the file reads `new`. In the delivery after the one
whose third child raised, the first write is run again, finds revision 1 and overwrites the
second. -/
theorem redelivery_lands_a_rejected_write :
    validateBatch "e" lateFit = true ∧
    (sinkWorkspaceBatch thirdRaises lateFit ⟨fun _ => none, fun _ => none⟩).2 = .error .retryable ∧
    (sinkWorkspaceBatch .plain lateFit (afterDeliveries [thirdRaises] lateFit fun _ => none)).2 =
      .ok ⟨[("e:item:0", .applied (some 2)), ("e:item:1", .applied none),
        ("e:item:2", .applied (some 1))], .applied⟩ ∧
    statusesInOrder lateFit (fun _ => none) = [("e:item:0", false), ("e:item:1", true),
      ("e:item:2", true)] ∧
    ¬ RedeliveryInOrder lateFit (fun _ => none) := by
  have hresult : (sinkWorkspaceBatch .plain lateFit (afterDeliveries [thirdRaises] lateFit fun _ =>
      none)).2 =
      .ok ⟨[("e:item:0", .applied (some 2)), ("e:item:1", .applied none),
          ("e:item:2", .applied (some 1))],
        .applied⟩ := by
    decide +kernel
  have hstatuses : statusesInOrder lateFit (fun _ => none) =
      [("e:item:0", false), ("e:item:1", true), ("e:item:2", true)] := by
    decide +kernel
  refine ⟨by decide +kernel, by decide +kernel, hresult, hstatuses, fun h => ?_⟩
  have hsame : prepareOperations lateFit = some lateFit := by decide +kernel
  have hpair : ∀ {x : BatchState × Except BatchError BatchResult} {r : BatchResult}, x.2 = .ok r →
      x = (x.1, .ok r) := by
    intro x r hr
    rw [← hr]
  have horder := (h [thirdRaises] .plain _ _ (hpair hresult) lateFit hsame).2
  rw [hstatuses] at horder
  revert horder
  decide

end Feedling
