import Mathlib.Data.List.Sort
import Feedling.KeyedTable
import Feedling.Runs
import Feedling.SqlText
import Feedling.Workspace

/-!
# The two workspace backends

One backend keeps its entries in a dictionary and walks over the sorted paths, the other keeps rows
of all users and lets the database select, sort and cut them. Read, write, delete and list answer
the same on both, but for the deletion of a missing file: the database only counts the deleted rows,
so there it is a conflict.
-/

namespace Feedling

namespace Backends

open KeyedTable SqlText

/-! ## Canonical paths -/

theorem not_mem_of_mem_splitOn {c : Char} {l part : List Char} (h : part ∈ l.splitOn c) :
    c ∉ part := by
  induction l generalizing part with
  | nil =>
    rw [List.splitOn_nil, List.mem_singleton] at h
    subst h
    exact List.not_mem_nil
  | cons d l ih =>
    rw [List.splitOn_cons_eq_if_modifyHead] at h
    split_ifs at h with hd
    · obtain rfl | h := List.mem_cons.mp h
      · exact List.not_mem_nil
      · exact ih h
    · cases hl : l.splitOn c with
      | nil => exact absurd hl (List.splitOn_ne_nil _ _)
      | cons first rest =>
        rw [hl, List.modifyHead_cons] at h
        obtain rfl | h := List.mem_cons.mp h
        · have hfirst : c ∉ first := ih (hl ▸ List.mem_cons_self)
          intro hmem
          obtain rfl | hmem := List.mem_cons.mp hmem
          · simp at hd
          · exact hfirst hmem
        · exact ih (hl ▸ List.mem_cons_of_mem _ h)

theorem foldl_normComponent {parts : List String} (h : ∀ part ∈ parts, part ≠ "." ∧ part ≠ "..")
    (slashes : Nat) (done : List String) :
    parts.foldl (normComponent slashes) done = done ++ parts.filter (fun part => part ≠ "") := by
  induction parts generalizing done with
  | nil => rw [List.foldl_nil, List.filter_nil, List.append_nil]
  | cons part parts ih =>
    obtain ⟨hdot, hdots⟩ := h part List.mem_cons_self
    rw [List.foldl_cons, ih fun p hp => h p (List.mem_cons_of_mem _ hp)]
    unfold normComponent
    by_cases hempty : part = ""
    · subst hempty
      simp
    · rw [if_neg (by simp [hempty, hdot]), if_pos (Or.inl hdots),
        List.filter_cons_of_pos (by simpa using hempty), List.append_assoc, List.singleton_append]

theorem canonicalPath_inv {raw path : String} {allowRoot : Bool}
    (h : canonicalPath raw allowRoot = .ok path) :
    path = "/" ∨ (∀ part ∈ pathParts path, part ≠ "." ∧ part ≠ "..") ∧ normpath path = path ∧
      ∃ root ∈ [artifactsRoot, workspaceRoot, memoryRoot,
        skillsRoot], underRoot path root = true := by
  obtain rfl := canonicalPath_ok h
  unfold canonicalPath at h
  dsimp only at h
  split_ifs at h with hbad hroot hallow hunder
  · exact Or.inl (by simpa using hroot)
  · refine Or.inr ⟨?_, ?_, by simpa using hunder⟩
    · intro part hpart
      simp only [Bool.or_eq_true, not_or, List.any_eq_true, beq_iff_eq] at hbad
      constructor
      · intro heq
        exact hbad.1.2 ⟨part, hpart, Or.inl heq⟩
      · intro heq
        exact hbad.1.2 ⟨part, hpart, Or.inr heq⟩
    · simp only [Bool.or_eq_true, not_or, bne_iff_ne, ne_eq, not_not] at hbad
      exact hbad.2

theorem underRoot_iff {path root : String} :
    underRoot path root = true ↔ path = root ∨ root.toList ++ ['/'] <+: path.toList := by
  rw [underRoot, Bool.or_eq_true, beq_iff_eq, startsWith, List.isPrefixOf_iff_prefix,
    String.toList_append]
  rfl

theorem toList_of_underRoot {path root : String} (hroot : root ∈ [artifactsRoot, workspaceRoot,
      memoryRoot, skillsRoot])
    (h : underRoot path root = true) : ∃ c rest, c ≠ '/' ∧ path.toList = '/' :: c :: rest := by
  have hfront : root.toList <+: path.toList := by
    obtain rfl | hbelow := underRoot_iff.mp h
    · exact List.prefix_refl _
    · exact (List.prefix_append _ _).trans hbelow
  obtain ⟨rest, hrest⟩ := hfront
  have hletter : ∃ c tail, c ≠ '/' ∧ root.toList = '/' :: c :: tail := by
    simp only [List.mem_cons, List.not_mem_nil, or_false] at hroot
    obtain rfl | rfl | rfl | rfl := hroot
    · exact ⟨'a', "rtifacts".toList, by decide, by decide⟩
    · exact ⟨'w', "orkspace".toList, by decide, by decide⟩
    · exact ⟨'m', "emory".toList, by decide, by decide⟩
    · exact ⟨'s', "kills".toList, by decide, by decide⟩
  obtain ⟨c, tail, hc, htail⟩ := hletter
  exact ⟨c, tail ++ rest, hc, by rw [← hrest, htail]; rfl⟩

theorem nil_not_mem_splitOn {path : String} {rest : List Char}
    (hparts : ∀ part ∈ pathParts path, part ≠ "." ∧ part ≠ "..") (hnorm : normpath path = path)
    (hpath : path.toList = '/' :: rest) (hone : ∀ tail, rest ≠ '/' :: tail) (hne : rest ≠ []) :
    [] ∉ rest.splitOn '/' := by
  have hslashes : (if !startsWith path "/" then 0 else if startsWith path "//" &&
      !startsWith path "///" then 2 else 1) = 1 := by
    have hfirst : startsWith path "/" = true := by
      rw [startsWith, hpath]
      simp
    have hsecond : startsWith path "//" = false := by
      rw [startsWith, hpath]
      cases rest with
      | nil => rfl
      | cons c tail =>
        have hc : c ≠ '/' := by
          rintro rfl
          exact hone tail rfl
        simp [List.isPrefixOf, hc.symm]
    rw [hfirst, hsecond]
    rfl
  have hsplit : pathParts path = "" :: (rest.splitOn '/').map String.ofList := by
    rw [pathParts, hpath, List.splitOn_cons_eq_if_modifyHead, if_pos (by simp)]
    rfl
  have hfilter : (pathParts path).filter (fun part => part ≠ "") =
      ((rest.splitOn '/').filter fun part => part ≠ []).map String.ofList := by
    rw [hsplit, List.filter_cons_of_neg (by simp), List.filter_map]
    congr 1
    refine List.filter_congr fun part _ => ?_
    simp [Function.comp]
  have hjoined : rest = ['/'].intercalate ((rest.splitOn '/').filter fun part => part ≠ []) := by
    unfold normpath at hnorm
    dsimp only at hnorm
    rw [hslashes, foldl_normComponent hparts, hfilter, List.nil_append, List.map_map] at hnorm
    have htexts : ((rest.splitOn '/').filter fun part => part ≠ []).map
        (String.toList ∘ String.ofList) =
          (rest.splitOn '/').filter fun part => part ≠ [] := by
      simp [Function.comp_def]
    rw [htexts, if_neg (by simp [← String.toList_inj])] at hnorm
    have hlists := congrArg String.toList hnorm
    rw [String.toList_ofList, hpath] at hlists
    exact (List.cons.inj hlists).2.symm
  intro hmem
  have hnonempty : (rest.splitOn '/').filter (fun part => part ≠ []) ≠ [] := by
    intro hnil
    rw [hnil] at hjoined
    exact hne hjoined
  have hall : rest.splitOn '/' = (rest.splitOn '/').filter fun part => part ≠ [] := by
    conv_lhs => rw [hjoined]
    refine List.splitOn_intercalate '/' (fun part hpart => ?_) hnonempty
    exact not_mem_of_mem_splitOn (List.mem_filter.mp hpart).1
  rw [hall] at hmem
  simpa using (List.mem_filter.mp hmem).2

theorem canonicalPath_slashes {raw path : String} {allowRoot : Bool}
    (h : canonicalPath raw allowRoot = .ok path) (front back : List Char) :
    path.toList ≠ front ++ '/' :: '/' :: back := by
  obtain rfl | ⟨hparts, hnorm, root, hroot, hunder⟩ := canonicalPath_inv h
  · intro heq
    have hlength := congrArg List.length heq
    simp at hlength
    omega
  · obtain ⟨c, rest, hc, hpath⟩ := toList_of_underRoot hroot hunder
    have hnil := nil_not_mem_splitOn hparts hnorm hpath
      (by rintro tail heq; exact hc (List.cons.inj heq).1) (by simp)
    intro heq
    apply hnil
    rw [hpath] at heq
    cases front with
    | nil => exact absurd (List.cons.inj (List.cons.inj heq).2).1 hc
    | cons d front =>
      rw [List.cons_append] at heq
      rw [(List.cons.inj heq).2, List.splitOn_append_cons_self, List.splitOn_cons_eq_if_modifyHead,
        if_pos (by simp)]
      exact List.mem_append_right _ List.mem_cons_self

/-! ## Entries -/

/-- `WorkspaceEntry`. -/
structure WorkspaceEntry where
  path : String
  kind : EntryKind
  revision : Nat
  content : String
  mimeType : String
  sourceRef : String
  deriving DecidableEq, Repr

/-- `text[:n]`. -/
def cut (n : Nat) (text : String) : String := String.ofList (text.toList.take n)

/-- `str(mime_type or "text/plain")`. -/
def mimeOr (mimeType : String) : String := if mimeType = "" then "text/plain" else mimeType

/-- `max(1, min(int(limit), 500))`. -/
def listMaximum (limit : Int) : Nat := (max 1 (min limit 500)).toNat

/-- A text that a column can hold. -/
def ColumnText : Type := { text : String // '\x00' ∉ text.toList }

inductive Call where
  | list (front : String) (recursive : Bool) (limit : Int)
  | read (path : String)
  | write (path content : String) (expectedRevision : Int) (mimeType : ColumnText)
  | delete (path : String) (expectedRevision : Int)

/-- What a call returns or raises. -/
inductive Answer where
  | entries (rows : List WorkspaceEntry)
  | entry (row : WorkspaceEntry)
  | done
  | raised (error : WorkspaceError)
  deriving DecidableEq, Repr

/-- A call that raises changes nothing. -/
def outcome {σ α : Type} (s : σ) (returned : α → σ × Answer) : Except WorkspaceError α → σ × Answer
  | .ok a => returned a
  | .error e => (s, .raised e)

/-! ## In memory -/

/-- `self._entries`. -/
abbrev Memory := Table WorkspaceEntry.path

namespace Memory

def relative (front path : String) : List Char :=
  if front = "/" then path.toList.drop 1 else (path.toList.drop front.length).dropWhile (· == '/')

/-- The loop of `list` over the sorted paths. -/
def collect (m : Memory) (front : String) (recursive : Bool) (maximum : Nat) :
    List String → List WorkspaceEntry → List WorkspaceEntry
  | [], rows => rows
  | path :: paths, rows =>
    if front != "/" && !underRoot path front then collect m front recursive maximum paths rows
    else if !recursive && (relative front path).contains '/' then
      collect m front recursive maximum paths rows
    else
      match m.get? path with
      | none => collect m front recursive maximum paths rows
      | some e =>
        let rows := rows ++ [{ e with content := "" }]
        if maximum ≤ rows.length then rows else collect m front recursive maximum paths rows

def sortedPaths (m : Memory) : List String :=
  (m.rows.map (·.path)).mergeSort fun a b => decide (a ≤ b)

def list (m : Memory) (raw : String) (recursive : Bool) (limit : Int) :
    Except WorkspaceError (List WorkspaceEntry) := do
  let front ← canonicalPath raw true
  return collect m front recursive (listMaximum limit) (sortedPaths m) []

def read (m : Memory) (raw : String) : Except WorkspaceError WorkspaceEntry := do
  let path ← canonicalPath raw false
  match m.get? path with
  | none => throw .notFound
  | some e => return e

/-- `_write_internal`. -/
def writeInternal (m : Memory) (path content : String) (expectedRevision : Int) (mimeType : String)
    (kind : EntryKind) (sourceRef : String) : Except WorkspaceError (Memory × WorkspaceEntry) :=
  if !contentFits path content then .error .failed
  else if expectedRevision < 0 then .error .conflict
  else
    let actual : Nat := ((m.get? path).map (·.revision)).getD 0
    if (actual : Int) ≠ expectedRevision then .error .conflict
    else
      let e : WorkspaceEntry := ⟨path, kind, actual + 1, content, cut 200 (mimeOr mimeType),
        cut 512 sourceRef⟩
      .ok (m.put e, e)

def write (m : Memory) (raw content : String) (expectedRevision : Int) (mimeType : String) :
    Except WorkspaceError (Memory × WorkspaceEntry) := do
  let path ← modelWritablePath raw
  let kind ← kindForPath path
  writeInternal m path content expectedRevision mimeType kind ""

def delete (m : Memory) (raw : String) (expectedRevision : Int) : Except WorkspaceError Memory := do
  let path ← modelWritablePath raw
  match m.get? path with
  | none => throw .notFound
  | some current =>
    if (current.revision : Int) ≠ expectedRevision then throw .conflict
    return m.erase fun e => e.path == path

/-- The entries after a call, and its answer. -/
def call (m : Memory) : Call → Memory × Answer
  | .list front recursive limit =>
    outcome m (fun rows => (m, .entries rows)) (list m front recursive limit)
  | .read path => outcome m (fun e => (m, .entry e)) (read m path)
  | .write path content expectedRevision mimeType =>
    outcome m (fun stored => (stored.1, .entry stored.2))
      (write m path content expectedRevision mimeType.1)
  | .delete path expectedRevision =>
    outcome m (fun rest => (rest, .done)) (delete m path expectedRevision)

end Memory

/-! ## In the database -/

/-- `EnvelopeCodec`: what was sealed for a path opens to the same octets. -/
structure Codec (ε : Type) where
  sealAt : String → ByteArray → ε
  openAt : String → ε → ByteArray
  openAt_sealAt : ∀ path plaintext, openAt path (sealAt path plaintext) = plaintext

/-- A row of `v2_workspace_entries`. -/
structure EntryRow (ε : Type) where
  userId : UserId
  path : String
  kind : EntryKind
  contentEnvelope : ε
  mimeType : String
  sourceRef : String
  revision : Nat

@[reducible] def EntryRow.key {ε : Type} (r : EntryRow ε) : UserId × String := (r.userId, r.path)

abbrev EntryTable (ε : Type) := Table (@EntryRow.key ε)

namespace Postgres

variable {ε : Type}

/-- The `WHERE` clause of `list_workspace_entries` on the path. -/
def listed (front : String) (recursive : Bool) (path : String) : Bool :=
  if front = "/" then
    if recursive then true else decide (position '/' (substringFrom path.toList 2) = 0)
  else
    let escaped := escapeLike front.toList
    let below := like (escaped ++ ['/', '%']) path.toList
    if recursive then path == front || below
    else path == front || below &&
      decide (position '/' (substringFrom path.toList (front.length + 2)) = 0)

/-- `ORDER BY path` under the collation by bytes. -/
def orderByPath (rows : List (EntryRow ε)) : List (EntryRow ε) :=
  rows.mergeSort fun a b => decide (¬bytes b.path.toList < bytes a.path.toList)

/-- `list_workspace_entries`. -/
def listWorkspaceEntries (t : EntryTable ε) (u : UserId) (front : String) (recursive : Bool)
    (limit : Int) : List (EntryRow ε) :=
  (orderByPath (t.rows.filter fun r => r.userId == u && listed front recursive r.path)).take
    (listMaximum limit)

/-- `put_workspace_entry_cas`, after a negative revision was refused; `chatHas` tells the messages
of the user. -/
def putWorkspaceEntryCas (t : EntryTable ε) (chatHas : String → Bool) (u : UserId) (path : String)
    (kind : EntryKind) (contentEnvelope : ε) (mimeType sourceRef : String)
    (expectedRevision : Int) : EntryTable ε × Option (EntryRow ε) :=
  if kind = .artifact ∧ chatHas sourceRef = false then (t, none)
  else
    match t.get? (u, path) with
    | none =>
      if (0 : Int) ≠ expectedRevision then (t, none)
      else
        let row : EntryRow ε := ⟨u, path, kind, contentEnvelope, mimeType, sourceRef, 1⟩
        (t.insert row, some row)
    | some current =>
      if (current.revision : Int) ≠ expectedRevision then (t, none)
      else
        let rewrite (r : EntryRow ε) : EntryRow ε := ⟨r.userId, r.path, kind, contentEnvelope,
          mimeType, sourceRef, r.revision + 1⟩
        let updated := t.modify (fun r => r.userId == u && r.path == path &&
            decide ((r.revision : Int) = expectedRevision))
          rewrite fun _ => rfl
        (updated, some (rewrite current))

/-- `delete_workspace_entry_cas`; the answer is `rowcount == 1`. -/
def deleteWorkspaceEntryCas (t : EntryTable ε) (u : UserId) (path : String)
    (expectedRevision : Int) : EntryTable ε × Bool :=
  if expectedRevision ≤ 0 then (t, false)
  else
    let gone (r : EntryRow ε) : Bool :=
      r.userId == u && r.path == path && decide ((r.revision : Int) = expectedRevision)
    (t.erase gone, (t.rows.filter gone).length == 1)

/-- `_meta`. -/
def ofRow (r : EntryRow ε) : WorkspaceEntry := ⟨r.path, r.kind, r.revision, "", mimeOr r.mimeType,
    r.sourceRef⟩

def list (t : EntryTable ε) (u : UserId) (raw : String) (recursive : Bool) (limit : Int) :
    Except WorkspaceError (List WorkspaceEntry) := do
  let front ← canonicalPath raw true
  return (listWorkspaceEntries t u front recursive limit).map ofRow

def read (codec : Codec ε) (t : EntryTable ε) (u : UserId) (raw : String) :
    Except WorkspaceError WorkspaceEntry := do
  let path ← canonicalPath raw false
  match t.get? (u, path) with
  | none => throw .notFound
  | some row =>
    match String.fromUTF8? (codec.openAt path row.contentEnvelope) with
    | none => throw .failed
    | some content => return { ofRow row with content }

/-- `_write_internal`. -/
def writeInternal (codec : Codec ε) (t : EntryTable ε) (chatHas : String → Bool) (u : UserId)
    (path content : String) (expectedRevision : Int) (mimeType : String) (kind : EntryKind)
    (sourceRef : String) :
    Except WorkspaceError (EntryTable ε × WorkspaceEntry) :=
  if !contentFits path content then .error .failed
  else if expectedRevision < 0 then .error .conflict
  else
    match putWorkspaceEntryCas t chatHas u path kind (codec.sealAt path content.toUTF8)
      (cut 200 (mimeOr mimeType)) (cut 512 sourceRef) expectedRevision with
    | (_, none) => .error .conflict
    | (t, some row) => .ok (t, { ofRow row with content })

def write (codec : Codec ε) (t : EntryTable ε) (chatHas : String → Bool) (u : UserId)
    (raw content : String) (expectedRevision : Int) (mimeType : String) :
    Except WorkspaceError (EntryTable ε × WorkspaceEntry) := do
  let path ← modelWritablePath raw
  let kind ← kindForPath path
  writeInternal codec t chatHas u path content expectedRevision mimeType kind ""

def delete (t : EntryTable ε) (u : UserId) (raw : String) (expectedRevision : Int) :
    Except WorkspaceError (EntryTable ε) := do
  let path ← modelWritablePath raw
  match deleteWorkspaceEntryCas t u path expectedRevision with
  | (t, true) => return t
  | (_, false) => throw .conflict

/-- The table after a call, and its answer. -/
def call (codec : Codec ε) (chatHas : String → Bool) (u : UserId) (t : EntryTable ε) :
    Call → EntryTable ε × Answer
  | .list front recursive limit =>
    outcome t (fun rows => (t, .entries rows)) (list t u front recursive limit)
  | .read path => outcome t (fun e => (t, .entry e)) (read codec t u path)
  | .write path content expectedRevision mimeType =>
    outcome t (fun stored => (stored.1, .entry stored.2))
      (write codec t chatHas u path content expectedRevision mimeType.1)
  | .delete path expectedRevision =>
    outcome t (fun rest => (rest, .done)) (delete t u path expectedRevision)

end Postgres

end Backends

end Feedling
