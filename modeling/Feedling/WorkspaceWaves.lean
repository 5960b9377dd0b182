import Feedling.WorkspaceBatch

/-!
# The waves of a workspace batch

Two paths conflict if one of them is the other or lies below it. Operations on paths that do not
conflict touch different rows, so a batch that runs wave by wave does what it does in list order.
-/

namespace Feedling

open Waves

/-! ## Paths above and below -/

theorem intercalate_append {α : Type} (x : α) {l r : List (List α)} (hl : l ≠ []) (hr : r ≠ []) :
    [x].intercalate (l ++ r) = [x].intercalate l ++ x :: [x].intercalate r := by
  induction l with
  | nil => exact absurd rfl hl
  | cons a l ih =>
    cases l with
    | nil =>
      obtain ⟨b, r, rfl⟩ := List.exists_cons_of_ne_nil hr
      simp [List.intercalate]
    | cons b l =>
      have hrest := ih (by simp)
      simp only [List.intercalate, List.cons_append, List.intersperse_cons_cons,
        List.flatten_cons] at hrest ⊢
      simp [hrest]

theorem pathParts_prefix_iff (above below : String) :
    pathParts above <+: pathParts below ↔ below = above ∨
      startsWith below (above ++ "/") = true := by
  have hslash : startsWith below (above ++ "/") = true ↔
      above.toList ++ ['/'] <+: below.toList := by
    simp [startsWith]
  have hmap : pathParts above <+: pathParts below ↔
      above.toList.splitOn '/' <+: below.toList.splitOn '/' :=
    List.prefix_map_iff_of_injective fun _ _ h => String.ofList_injective h
  rw [hmap, hslash]
  constructor
  · rintro ⟨rest, hrest⟩
    have hjoin : ['/'].intercalate (above.toList.splitOn '/' ++ rest) = below.toList := by
      rw [hrest, List.intercalate_splitOn]
    by_cases hnil : rest = []
    · rw [hnil, List.append_nil, List.intercalate_splitOn] at hjoin
      exact .inl (String.toList_injective hjoin.symm)
    · have habove : above.toList.splitOn '/' ≠ [] := List.splitOnP_ne_nil _ _
      rw [intercalate_append '/' habove hnil, List.intercalate_splitOn] at hjoin
      exact .inr ⟨['/'].intercalate rest, by rw [← hjoin]; simp⟩
  · rintro (rfl | ⟨rest, hrest⟩)
    · exact List.prefix_rfl
    · rw [← hrest, List.append_assoc, List.singleton_append]
      exact ⟨_, (List.splitOnP_append_cons _ _ (by simp)).symm⟩

/-- Neither path is the other or lies below it. -/
def Operation.Unrelated (o o' : Operation) : Prop :=
  ¬ pathParts o.path <+: pathParts o'.path ∧ ¬ pathParts o'.path <+: pathParts o.path

theorem workspacePathsConflict_eq_false {o o' : Operation} :
    workspacePathsConflict o'.path o.path = false ↔ o.Unrelated o' := by
  rw [Operation.Unrelated, pathParts_prefix_iff, pathParts_prefix_iff]
  simp only [workspacePathsConflict, Bool.or_eq_false_iff, beq_eq_false_iff_ne, not_or,
    Bool.not_eq_true, ne_eq]
  constructor
  · rintro ⟨⟨hne, hbelow⟩, habove⟩
    exact ⟨⟨hne, hbelow⟩, fun h => hne h.symm, habove⟩
  · rintro ⟨⟨hne, hbelow⟩, -, habove⟩
    exact ⟨⟨hne, hbelow⟩, habove⟩

/-! ## Independent operations -/

/-- The operation with what it answers: the new revision of a write, or the error. -/
def Operation.perform (o : Operation) (ws : Entries) :
    Entries × Except WorkspaceError (Option Nat) :=
  (o.execute ws, (o.run ws).map (·.2))

/-- The answer depends on the row of the path alone. -/
theorem Operation.answer_congr {o : Operation} {ws ws' : Entries}
    (hpath : modelWritablePath o.path = .ok o.path) (h : ws o.path = ws' o.path) :
    (o.perform ws).2 = (o.perform ws').2 := by
  simp only [Operation.perform, Operation.run]
  cases o.mutation with
  | write content =>
    simp only [Backend.write, hpath, bind, Except.bind, putWorkspaceEntryCas, h]
    cases kindForPath o.path with
    | error e => rfl
    | ok kind =>
      dsimp only
      cases contentFits o.path content with
      | false => rfl
      | true =>
        by_cases hart : kind = .artifact
        · simp [hart, Except.map]
        · cases putCell kind content "text/markdown" "" o.expectedRevision (ws' o.path) with
          | none => simp [hart, Except.map, throw, throwThe, MonadExceptOf.throw]
          | some e => simp [hart, Except.map, pure, Except.pure]
  | delete =>
    simp only [Backend.delete, hpath, bind, Except.bind, deleteWorkspaceEntryCas, h]
    cases deletes o.expectedRevision (ws' o.path) with
    | false => rfl
    | true => rfl

theorem Operation.independent {o o' : Operation} (hpath : modelWritablePath o.path = .ok o.path)
    (hpath' : modelWritablePath o'.path = .ok o'.path) (hne : o.path ≠ o'.path) :
    Independent Operation.perform o o' := by
  have hend : ∀ ws, (o.perform ws).1 = o.task.run ws := fun ws => Operation.execute_eq hpath ws
  have hend' : ∀ ws, (o'.perform ws).1 = o'.task.run ws := fun ws => Operation.execute_eq hpath' ws
  constructor
  · intro ws
    refine Operation.answer_congr hpath ?_
    rw [hend']
    exact Redelivery.Task.run_other o'.task ws hne
  · intro ws
    refine Operation.answer_congr hpath' ?_
    rw [hend]
    exact Redelivery.Task.run_other o.task ws hne.symm
  · intro ws
    rw [hend, hend', hend', hend]
    exact Redelivery.Task.run_comm hne ws

/-! ## The batch -/

section Prepared

variable {operations prepared : List Operation}

theorem prepareOperations_isSome
    (h : ∀ o ∈ operations, ∃ path, modelWritablePath o.path = .ok path) :
    ∃ prepared, prepareOperations operations = some prepared := by
  induction operations with
  | nil => exact ⟨[], rfl⟩
  | cons o operations ih =>
    obtain ⟨path, hpath⟩ := h o (by simp)
    obtain ⟨prepared, hprepared⟩ := ih fun o' ho' => h o' (by simp [ho'])
    have hfirst : (modelWritablePath o.path).toOption = some path := by rw [hpath]; rfl
    unfold prepareOperations at hprepared ⊢
    exact ⟨{ o with path } :: prepared, by simp [List.mapM_cons, hprepared, hfirst]⟩

theorem prepareOperations_forall₂ (h : prepareOperations operations = some prepared) :
    List.Forall₂ (fun o o' => ∃ path, modelWritablePath o.path = .ok path ∧
      o' = { o with path }) operations prepared := by
  refine (forall₂_of_mapM h).imp fun o o' ho => ?_
  obtain ⟨path, hpath, rfl⟩ := Option.map_eq_some_iff.mp ho
  refine ⟨path, ?_, rfl⟩
  cases hw : modelWritablePath o.path with
  | error e => simp [hw, Except.toOption] at hpath
  | ok p => simpa [hw, Except.toOption] using hpath

end Prepared

/-- A batch on checked paths runs in the fewest waves of unrelated operations, and whatever the
order in each wave, every operation answers as in list order and the workspace ends alike. -/
theorem batch_refines_sequence (operations : List Operation)
    (hpaths : ∀ o ∈ operations, ∃ path, modelWritablePath o.path = .ok path) :
    ∃ prepared, prepareOperations operations = some prepared ∧
      List.Forall₂ (fun o o' => ∃ path, modelWritablePath o.path = .ok path ∧
        o' = { o with path }) operations prepared ∧
      (workspaceMutationWaves prepared).flatten = prepared ∧
      (∀ w ∈ workspaceMutationWaves prepared, w ≠ [] ∧ w.Pairwise Operation.Unrelated) ∧
      (∀ parts : List (List Operation), parts.flatten = prepared →
        (∀ p ∈ parts, p.Pairwise Operation.Unrelated) →
          (workspaceMutationWaves prepared).length ≤ parts.length) ∧
      ∀ (ws : Entries) (orders : List (List Operation)),
        List.Forall₂ List.Perm orders (workspaceMutationWaves prepared) →
        (runBlocks Operation.perform orders ws).1 = (runAll Operation.perform prepared ws).1 ∧
        ∃ answers : List (List (Operation × Except WorkspaceError (Option Nat))),
          answers.flatten = (runAll Operation.perform prepared ws).2 ∧
          List.Forall₂ List.Perm (runBlocks Operation.perform orders ws).2 answers := by
  obtain ⟨prepared, hprepared⟩ := prepareOperations_isSome hpaths
  have hcanonical := (prepareOperations_spec hprepared).2
  obtain ⟨hflat, hwaves⟩ :=
    waves_spec (fun o existing : Operation => workspacePathsConflict o.path existing.path) prepared
  rw [← workspaceMutationWaves_eq] at hflat hwaves
  have hunrelated : ∀ w ∈ workspaceMutationWaves prepared, w ≠ [] ∧
      w.Pairwise Operation.Unrelated :=
    fun w hw => ⟨(hwaves w hw).1, (hwaves w hw).2.imp workspacePathsConflict_eq_false.mp⟩
  refine ⟨prepared, hprepared, prepareOperations_forall₂ hprepared, hflat, hunrelated, ?_, ?_⟩
  · intro parts hparts hfree
    rw [workspaceMutationWaves_eq]
    exact length_waves_le hparts fun p hp => (hfree p hp).imp workspacePathsConflict_eq_false.mpr
  · intro ws orders horders
    have hindependent : ∀ w ∈ workspaceMutationWaves prepared,
        w.Pairwise (Independent Operation.perform) := by
      intro w hw
      have hmem : ∀ o ∈ w, o ∈ prepared := by
        intro o ho
        rw [← hflat]
        exact List.mem_flatten.mpr ⟨w, hw, ho⟩
      refine (hunrelated w hw).2.imp_of_mem fun {o o'} ho ho' hne => ?_
      exact Operation.independent (hcanonical o (hmem o ho)) (hcanonical o' (hmem o' ho'))
        fun hpath => hne.1 (by rw [hpath])
    obtain ⟨hend, hanswers⟩ := runBlocks_perm horders hindependent ws
    have hsequence := runAll_flatten Operation.perform (workspaceMutationWaves prepared) ws
    rw [hflat] at hsequence
    rw [hsequence]
    exact ⟨hend, _, rfl, hanswers⟩

/-- A file is created and replaced while another is created: two waves. -/
def threeWrites : List Operation :=
  [⟨.write "one", " /workspace/a", 0, "e:item:0"⟩, ⟨.write "two", "/workspace/b", 0, "e:item:1"⟩,
    ⟨.write "three", "/workspace/a", 1, "e:item:2"⟩]

theorem batch_refines_sequence_threeWrites :
    ∃ prepared, prepareOperations threeWrites = some prepared ∧
      ((workspaceMutationWaves prepared).map List.length) = [2, 1] ∧
      (workspaceMutationWaves prepared).flatten = prepared := by
  have hpaths : ∀ o ∈ threeWrites, ∃ path, modelWritablePath o.path = .ok path := by
    intro o ho
    have hok : ∀ o ∈ threeWrites, modelWritablePath o.path = .ok (strip o.path) := by decide +kernel
    exact ⟨_, hok o ho⟩
  obtain ⟨prepared, hprepared, _, hflat, _⟩ := batch_refines_sequence threeWrites hpaths
  have hlengths : (prepareOperations threeWrites).map
    (fun prepared => (workspaceMutationWaves prepared).map List.length) =
      some [2, 1] := by decide +kernel
  rw [hprepared, Option.map_some, Option.some.injEq] at hlengths
  exact ⟨prepared, hprepared, hlengths, hflat⟩

end Feedling
