import Mathlib.Data.List.DropRight
import Feedling.Store

/-!
# The virtual workspace

Files of one user, keyed by path, each with a revision. A write or delete names the revision it
expects; `0` stands for a file that is not there. The two backends agree on what they accept and
differ only in the error for the deletion of a missing file.
-/

namespace Feedling

/-! ## Paths -/

/-- The exceptions of `workspace.backends`; `failed` is the base class, raised for bad content. -/
inductive WorkspaceError where
  | notFound | readOnly | conflict | invalidPath | failed
  deriving DecidableEq, Repr

/-- `value.split("/")`. -/
def pathParts (path : String) : List String := (path.toList.splitOn '/').map String.ofList

/-- One component of `posixpath.normpath`; `slashes` is the number of leading slashes kept. -/
def normComponent (slashes : Nat) (done : List String) (part : String) : List String :=
  if part = "" ∨ part = "." then done
  else if part ≠ ".." ∨ (slashes = 0 ∧ done = []) ∨ done.getLast? = some ".." then done ++ [part]
  else done.dropLast

/-- `posixpath.normpath`. -/
def normpath (path : String) : String :=
  let slashes :=
    if !startsWith path "/" then 0
    else if startsWith path "//" && !startsWith path "///" then 2 else 1
  let parts := (pathParts path).foldl (normComponent slashes) []
  let joined :=
    String.ofList (List.replicate slashes '/' ++ ['/'].intercalate (parts.map String.toList))
  if joined = "" then "." else joined

def artifactsRoot : String := "/artifacts"
def workspaceRoot : String := "/workspace"
def memoryRoot : String := "/memory"
def skillsRoot : String := "/skills"
def workingMemoryPath : String := "/memory/WORKING.md"

/-- The path is the root or lies below it. -/
def underRoot (path root : String) : Bool := path == root || startsWith path (root ++ "/")

def maxPathChars : Nat := 512

/-- `canonical_path`. -/
def canonicalPath (raw : String) (allowRoot : Bool) : Except WorkspaceError String :=
  let value := strip raw
  if !startsWith value "/" || value.toList.any (fun c => c == '\x00' || c == '\\') ||
      decide (maxPathChars < value.length) ||
      (pathParts value).any (fun part => part == "." || part == "..") ||
        normpath value != value then
    .error .invalidPath
  else if value == "/" then if allowRoot then .ok value else .error .invalidPath
  else if [artifactsRoot, workspaceRoot, memoryRoot, skillsRoot].any (underRoot value) then
    .ok value
  else .error .invalidPath

inductive EntryKind where
  | artifact | workspace | workingMemory | skill
  deriving DecidableEq, Repr

/-- `_kind_for_path`. -/
def kindForPath (path : String) : Except WorkspaceError EntryKind :=
  if startsWith path (artifactsRoot ++ "/") then .ok .artifact
  else if startsWith path (workspaceRoot ++ "/") then .ok .workspace
  else if path == workingMemoryPath then .ok .workingMemory
  else if startsWith path (skillsRoot ++ "/") then .ok .skill
  else .error .invalidPath

/-- `model_writable_path`. -/
def modelWritablePath (raw : String) : Except WorkspaceError String := do
  let path ← canonicalPath raw false
  if [artifactsRoot, skillsRoot].any (underRoot path) then throw .readOnly
  let _ ← kindForPath path
  return path

theorem strip_strip (text : String) : strip (strip text) = strip text := by
  have hfront : (List.rdropWhile isSpace (text.toList.dropWhile isSpace)).dropWhile isSpace =
      List.rdropWhile isSpace (text.toList.dropWhile isSpace) := by
    rw [List.dropWhile_eq_self_iff]
    intro hpos
    have hfront := List.rdropWhile_prefix isSpace (text.toList.dropWhile isSpace)
    rw [hfront.getElem hpos]
    exact List.dropWhile_get_zero_not isSpace text.toList (Nat.lt_of_lt_of_le hpos hfront.length_le)
  have hback := List.rdropWhile_idempotent isSpace (text.toList.dropWhile isSpace)
  simp only [List.rdropWhile] at hfront hback
  simp only [strip, String.toList_ofList, hfront, hback]

theorem canonicalPath_strip (raw : String) (allowRoot : Bool) :
    canonicalPath (strip raw) allowRoot = canonicalPath raw allowRoot := by
  simp only [canonicalPath, strip_strip]

theorem canonicalPath_ok {raw path : String} {allowRoot : Bool}
    (h : canonicalPath raw allowRoot = .ok path) : path = strip raw := by
  simp only [canonicalPath] at h
  split at h
  · cases h
  · split at h
    · split at h
      · exact (Except.ok.inj h).symm
      · cases h
    · split at h
      · exact (Except.ok.inj h).symm
      · cases h

theorem kindForPath_ne_artifact {path : String} {kind : EntryKind}
    (hread : underRoot path artifactsRoot = false) (h : kindForPath path = .ok kind) :
    kind ≠ .artifact := by
  rintro rfl
  have hfront : startsWith path (artifactsRoot ++ "/") = false := (Bool.or_eq_false_iff.mp hread).2
  simp only [kindForPath, hfront, Bool.false_eq_true, if_false] at h
  split at h
  · cases h
  · split at h
    · cases h
    · split at h <;> cases h

theorem modelWritablePath_inv {raw path : String} (h : modelWritablePath raw = .ok path) :
    canonicalPath raw false = .ok path ∧ ∃ kind, kindForPath path = .ok kind ∧
      kind ≠ .artifact := by
  cases hc : canonicalPath raw false with
  | error e => simp [modelWritablePath, hc, bind, Except.bind] at h
  | ok p =>
    simp only [modelWritablePath, hc, bind, Except.bind, pure, Except.pure, throw, throwThe,
      MonadExceptOf.throw] at h
    split at h
    · cases h
    · next hread =>
      cases hk : kindForPath p with
      | error e => simp [hk] at h
      | ok kind =>
        obtain rfl : p = path := by simpa [hk] using h
        have hartifacts : underRoot p artifactsRoot = false := by
          simp only [List.any_cons, Bool.or_eq_true, not_or, Bool.not_eq_true] at hread
          exact hread.1
        exact ⟨rfl, kind, hk, kindForPath_ne_artifact hartifacts hk⟩

theorem modelWritablePath_again {raw path : String} (h : modelWritablePath raw = .ok path) :
    modelWritablePath path = .ok path := by
  have hpath := canonicalPath_ok (modelWritablePath_inv h).1
  rw [← h, modelWritablePath, modelWritablePath, hpath, canonicalPath_strip]

/-! ## Entries -/

/-- A row of `v2_workspace_entries`; `content` is the text under its envelope. -/
structure Entry where
  kind : EntryKind
  content : String
  mimeType : String
  sourceRef : String
  revision : Nat
  positive : 0 < revision
  deriving DecidableEq, Repr

/-- The entries of one user. -/
abbrev Entries := String → Option Entry

/-- The revision of a file, `0` if there is none. -/
def revisionOf (cell : Option Entry) : Nat := (cell.map (·.revision)).getD 0

@[simp] theorem revisionOf_none : revisionOf none = 0 := rfl
@[simp] theorem revisionOf_some (e : Entry) : revisionOf (some e) = e.revision := rfl

/-- What `put_workspace_entry_cas` does to the row of its path; `none` is a stale revision. -/
def putCell (kind : EntryKind) (content mimeType sourceRef : String) (expectedRevision : Int)
    (cell : Option Entry) : Option Entry :=
  if (revisionOf cell : Int) = expectedRevision then
    some ⟨kind, content, mimeType, sourceRef, revisionOf cell + 1, Nat.succ_pos _⟩
  else none

/-- `put_workspace_entry_cas`. An artifact needs its source message, `sourceExists`. -/
def putWorkspaceEntryCas (ws : Entries) (path : String) (kind : EntryKind)
    (content mimeType sourceRef : String) (expectedRevision : Int) (sourceExists : Bool) :
    Entries × Option Entry :=
  if kind = .artifact ∧ sourceExists = false then (ws, none)
  else match putCell kind content mimeType sourceRef expectedRevision (ws path) with
    | some e => (Function.update ws path (some e), some e)
    | none => (ws, none)

def deletes (expectedRevision : Int) (cell : Option Entry) : Bool :=
  decide (0 < expectedRevision) && cell.any fun e => decide ((e.revision : Int) = expectedRevision)

/-- `delete_workspace_entry_cas`. -/
def deleteWorkspaceEntryCas (ws : Entries) (path : String) (expectedRevision : Int) :
    Entries × Bool :=
  if deletes expectedRevision (ws path) then (Function.update ws path none, true) else (ws, false)

/-! ## Backends -/

inductive Backend where
  | postgres | inMemory
  deriving DecidableEq, Repr

def maxContentBytes : Nat := 1000000
def maxWorkingMemoryBytes : Nat := 128000

/-- `_validate_content`. -/
def contentFits (path content : String) : Bool :=
  decide (content.utf8ByteSize ≤ if path = workingMemoryPath then maxWorkingMemoryBytes
      else maxContentBytes)

namespace Backend

/-- `read`: a missing file is an error. -/
def read (ws : Entries) (raw : String) : Except WorkspaceError Entry := do
  let path ← canonicalPath raw false
  match ws path with
  | some e => return e
  | none => throw .notFound

/-- `write` of either backend, with the media type of `write_text`. -/
def write (ws : Entries) (raw content : String) (expectedRevision : Int) :
    Except WorkspaceError (Entries × Entry) := do
  let path ← modelWritablePath raw
  let kind ← kindForPath path
  if !contentFits path content then throw .failed
  match putWorkspaceEntryCas ws path kind content "text/markdown" "" expectedRevision false with
  | (ws, some e) => return (ws, e)
  | (_, none) => throw .conflict

/-- `delete`; only the backend in memory tells a missing file from a stale revision. -/
def delete (backend : Backend) (ws : Entries) (raw : String) (expectedRevision : Int) :
    Except WorkspaceError Entries := do
  let path ← modelWritablePath raw
  match backend, ws path with
  | .inMemory, none => throw .notFound
  | _, _ =>
    match deleteWorkspaceEntryCas ws path expectedRevision with
    | (ws, true) => return ws
    | (_, false) => throw .conflict

end Backend

end Feedling
