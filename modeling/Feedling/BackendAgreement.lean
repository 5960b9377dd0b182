import Feedling.WorkspaceBackends

/-!
# Agreement of the workspace backends

The dictionary and the rows of the user hold the same entries, with the content under its envelope
in the database. Every call keeps that, and its answers are the same on both sides. For the listings
this compares the walk over the sorted paths with the selection of the database, its pattern and its
collation.
-/

namespace Feedling

namespace Backends

open KeyedTable SqlText

/-! ## Listings -/

def Memory.listed (front : String) (recursive : Bool) (path : String) : Bool :=
  (front == "/" || underRoot path front) &&
    (recursive || !(Memory.relative front path).contains '/')

/-- An entry as it is listed, without its content. -/
def WorkspaceEntry.blank (e : WorkspaceEntry) : WorkspaceEntry := { e with content := "" }

def Memory.blankAt (m : Memory) (path : String) : Option WorkspaceEntry :=
  (m.get? path).map WorkspaceEntry.blank

variable {front path : String}

theorem like_below :
    like (escapeLike front.toList ++ ['/', '%']) path.toList = true ↔
      front.toList ++ ['/'] <+: path.toList := by
  have hpattern : escapeLike front.toList ++ ['/', '%'] = escapeLike (front.toList ++ ['/']) ++
      ['%'] := by
    rw [escapeLike_append, List.append_assoc]
    rfl
  rw [hpattern, like_escapeLike_percent]

/-- Behind a directory and its slash comes the relative path, for a path without double slashes. -/
theorem relative_of_below {rest : List Char} (hfront : front ≠ "/")
    (hpath : path.toList = front.toList ++ '/' :: rest)
    (hslashes : ∀ a b, path.toList ≠ a ++ '/' :: '/' :: b) :
    Memory.relative front path = rest := by
  have hdrop : path.toList.drop front.length = '/' :: rest := by
    rw [hpath, ← String.length_toList, List.drop_left]
  rw [Memory.relative, if_neg hfront, hdrop, List.dropWhile_cons_of_pos (by simp)]
  cases rest with
  | nil => rfl
  | cons c rest =>
    refine List.dropWhile_cons_of_neg ?_
    intro hc
    obtain rfl : c = '/' := by simpa using hc
    exact hslashes front.toList rest hpath

theorem relative_self (hfront : front ≠ "/") : Memory.relative front front = [] := by
  rw [Memory.relative, if_neg hfront, ← String.length_toList, List.drop_length]
  rfl

theorem listed_eq (hslashes : ∀ a b, path.toList ≠ a ++ '/' :: '/' :: b) (front : String)
    (recursive : Bool) :
    Postgres.listed front recursive path = Memory.listed front recursive path := by
  rw [Bool.eq_iff_iff, Postgres.listed, Memory.listed]
  by_cases hroot : front = "/"
  · cases recursive with
    | true => simp [hroot]
    | false => simp [hroot, Memory.relative, position_eq_zero, substringFrom]
  · rw [if_neg hroot]
    dsimp only
    cases recursive with
    | true =>
      rw [if_pos rfl, Bool.or_eq_true, like_below, beq_iff_eq]
      simp [hroot, underRoot_iff]
    | false =>
      rw [if_neg Bool.false_ne_true, Bool.or_eq_true, Bool.and_eq_true, like_below, beq_iff_eq,
        decide_eq_true_iff, position_eq_zero, substringFrom]
      by_cases heq : path = front
      · subst heq
        simp [underRoot, relative_self hroot]
      · by_cases hbelow : front.toList ++ ['/'] <+: path.toList
        · obtain ⟨rest, hrest⟩ := hbelow
          rw [List.append_assoc, List.singleton_append] at hrest
          have hdrop : path.toList.drop (front.length + 2 - 1) = rest := by
            rw [← hrest, ← String.length_toList]
            simp
          have hunder : underRoot path front = true :=
            underRoot_iff.mpr (Or.inr ⟨rest, by rw [← hrest]; simp⟩)
          rw [hdrop, relative_of_below hroot hrest.symm hslashes, hunder]
          simp [heq, ← hrest]
        · have hunder : underRoot path front = false := by
            rw [Bool.eq_false_iff]
            intro hunder
            exact (underRoot_iff.mp hunder).elim heq hbelow
          simp [heq, hbelow, hunder, hroot]

theorem Memory.listed_eq_not (front : String) (recursive : Bool) (path : String) :
    Memory.listed front recursive path = (!(front != "/" && !underRoot path front) &&
      !(!recursive && (Memory.relative front path).contains '/')) := by
  rw [Memory.listed, bne]
  cases front == "/" <;> cases underRoot path front <;> cases recursive <;> simp

theorem collect_eq (m : Memory) (front : String) (recursive : Bool) {maximum : Nat}
    (paths : List String) {rows : List WorkspaceEntry} (h : rows.length < maximum) :
    Memory.collect m front recursive maximum paths rows = rows ++
      ((paths.filter (Memory.listed front recursive)).filterMap m.blankAt).take
        (maximum - rows.length) := by
  induction paths generalizing rows with
  | nil => simp [Memory.collect]
  | cons path paths ih =>
    rw [Memory.collect]
    by_cases hunder : (front != "/" && !underRoot path front) = true
    · have hlisted : Memory.listed front recursive path = false := by
        rw [Memory.listed_eq_not, hunder]; rfl
      rw [if_pos hunder, List.filter_cons_of_neg (by rw [hlisted]; exact Bool.false_ne_true)]
      exact ih h
    rw [if_neg hunder]
    rw [Bool.not_eq_true] at hunder
    by_cases hnested : (!recursive && (Memory.relative front path).contains '/') = true
    · have hlisted : Memory.listed front recursive path = false := by
        rw [Memory.listed_eq_not, hnested, Bool.and_comm]; rfl
      rw [if_pos hnested, List.filter_cons_of_neg (by rw [hlisted]; exact Bool.false_ne_true)]
      exact ih h
    rw [if_neg hnested]
    rw [Bool.not_eq_true] at hnested
    have hlisted : Memory.listed front recursive path = true := by
      rw [Memory.listed_eq_not, hunder, hnested]; rfl
    rw [List.filter_cons_of_pos hlisted]
    cases hget : m.get? path with
    | none =>
      have hblank : m.blankAt path = none := by rw [Memory.blankAt, hget]; rfl
      rw [List.filterMap_cons_none hblank]
      exact ih h
    | some e =>
      have hblank : m.blankAt path = some e.blank := by rw [Memory.blankAt, hget]; rfl
      dsimp only
      rw [List.filterMap_cons_some hblank, List.length_append, List.length_singleton]
      split_ifs with hfull
      · have hone : maximum - rows.length = 1 := by omega
        rw [hone]
        rfl
      · have hmore : maximum - rows.length = maximum - (rows.length + 1) + 1 := by omega
        rw [ih (by rw [List.length_append, List.length_singleton]; omega), hmore,
          List.take_succ_cons, List.length_append, List.length_singleton, List.append_assoc]
        rfl

/-! ## The simulation -/

def rowOf {ε : Type} (codec : Codec ε) (u : UserId) (e : WorkspaceEntry) : EntryRow ε :=
  ⟨u, e.path, e.kind, codec.sealAt e.path e.content.toUTF8, e.mimeType, e.sourceRef, e.revision⟩

/-- What every stored entry is. -/
structure Stored (e : WorkspaceEntry) : Prop where
  canonical : canonicalPath e.path false = .ok e.path
  typed : e.mimeType ≠ ""
  positive : 0 < e.revision

/-- The rows of the user are the entries of the dictionary. -/
structure Agrees {ε : Type} (codec : Codec ε) (u : UserId) (m : Memory) (t : EntryTable ε) :
    Prop where
  rows : ∀ path, t.get? (u, path) = (m.get? path).map (rowOf codec u)
  stored : ∀ e ∈ m.rows, Stored e

section Simulation

variable {ε : Type} {codec : Codec ε} {u : UserId} {m : Memory} {t : EntryTable ε}

variable {path : String} {e : WorkspaceEntry} {kind : EntryKind} {expectedRevision : Int}

theorem ofRow_rowOf (h : Stored e) : Postgres.ofRow (rowOf codec u e) = e.blank := by
  rw [Postgres.ofRow, rowOf, mimeOr, if_neg h.typed]
  rfl

theorem Agrees.mem_rows (h : Agrees codec u m t) {r : EntryRow ε} :
    r ∈ t.rows ∧ r.userId = u ↔ ∃ e ∈ m.rows, rowOf codec u e = r := by
  constructor
  · rintro ⟨hr, rfl⟩
    have hget := Table.mem_rows.mp hr
    have hrow := (h.rows r.path).symm.trans hget
    obtain ⟨e, he, heq⟩ := Option.map_eq_some_iff.mp hrow
    exact ⟨e, (Table.get?_eq_some.mp he).1, heq⟩
  · rintro ⟨e, he, rfl⟩
    have hget : t.get? (u, e.path) = some (rowOf codec u e) := by
      rw [h.rows, Table.mem_rows.mp he]; rfl
    exact ⟨(Table.get?_eq_some.mp hget).1, rfl⟩

/-! ### Listing -/

theorem orderByPath_eq (rows : List (EntryRow ε)) :
    Postgres.orderByPath rows = rows.mergeSort fun a b => decide (a.path ≤ b.path) := by
  unfold Postgres.orderByPath
  congr 1
  funext a b
  rw [decide_eq_decide, bytes_lt_iff, ← String.lt_iff_toList_lt, not_lt]

theorem pairwise_orderByPath {rows : List (EntryRow ε)} (h : (rows.map (·.path)).Nodup) :
    (Postgres.orderByPath rows).Pairwise fun a b => a.path < b.path := by
  rw [orderByPath_eq]
  have hle : (rows.mergeSort fun a b => decide (a.path ≤ b.path)).Pairwise fun a b => decide
      (a.path ≤ b.path) = true :=
    List.pairwise_mergeSort
      (fun a b c hab hbc => by simpa using le_trans (by simpa using hab) (by simpa using hbc))
      (fun a b => by simpa using le_total a.path b.path) rows
  have hne : (rows.mergeSort fun a b => decide (a.path ≤ b.path)).Pairwise fun a b => a.path ≠
      b.path :=
    List.pairwise_map.mp (((List.mergeSort_perm rows _).map _).nodup_iff.mpr h)
  refine (hle.and hne).imp fun hab => ?_
  exact lt_of_le_of_ne (by simpa using hab.1) hab.2

theorem pairwise_sortedPaths (m : Memory) : m.sortedPaths.Pairwise (· < ·) := by
  have hle : m.sortedPaths.Pairwise fun a b => decide (a ≤ b) = true :=
    List.pairwise_mergeSort
      (fun a b c hab hbc => by simpa using le_trans (by simpa using hab) (by simpa using hbc))
      (fun a b => by simpa using le_total a b) _
  have hne : m.sortedPaths.Pairwise (· ≠ ·) := (List.mergeSort_perm _ _).nodup_iff.mpr m.nodup
  refine (hle.and hne).imp fun hab => ?_
  exact lt_of_le_of_ne (by simpa using hab.1) hab.2

theorem mem_sortedPaths : path ∈ m.sortedPaths ↔ ∃ e ∈ m.rows, e.path = path := by
  rw [Memory.sortedPaths, (List.mergeSort_perm _ _).mem_iff, List.mem_map]

theorem nodup_paths (t : EntryTable ε) (u : UserId) (p : String → Bool) :
    ((t.rows.filter fun r => r.userId == u && p r.path).map (·.path)).Nodup := by
  have hkeys : ((t.rows.filter fun r => r.userId == u && p r.path).map EntryRow.key).Nodup :=
    t.nodup.sublist (List.filter_sublist.map _)
  have hpairs : (t.rows.filter fun r => r.userId == u && p r.path).map EntryRow.key =
      ((t.rows.filter fun r => r.userId == u && p r.path).map (·.path)).map fun path =>
        (u, path) := by
    rw [List.map_map]
    refine List.map_congr_left fun r hr => ?_
    have huser := (Bool.and_eq_true_iff.mp (List.mem_filter.mp hr).2).1
    exact Prod.ext (beq_iff_eq.mp huser) rfl
  rw [hpairs] at hkeys
  exact hkeys.of_map

theorem Agrees.orderByPath (h : Agrees codec u m t) (front : String) (recursive : Bool) :
    Postgres.orderByPath (t.rows.filter fun r => r.userId == u &&
      Postgres.listed front recursive r.path) =
      ((m.sortedPaths.filter (Memory.listed front recursive)).filterMap m.get?).map
        (rowOf codec u) := by
  have hleft := pairwise_orderByPath (nodup_paths t u (Postgres.listed front recursive))
  have hright : (((m.sortedPaths.filter (Memory.listed front recursive)).filterMap m.get?).map
      (rowOf codec u)).Pairwise fun a b => a.path < b.path := by
    rw [List.pairwise_map, List.pairwise_filterMap]
    refine ((pairwise_sortedPaths m).filter _).imp ?_
    intro a b hab e he e' he'
    have hpath : e.path = a := Table.key_of_get? he
    have hpath' : e'.path = b := Table.key_of_get? he'
    change e.path < e'.path
    rwa [hpath, hpath']
  have hasymm : ∀ a b : EntryRow ε, a.path < b.path → b.path < a.path → a = b :=
    fun a b hab hba => absurd hab (lt_asymm hba)
  have hnodup : ∀ l : List (EntryRow ε), (l.Pairwise fun a b => a.path < b.path) → l.Nodup := by
    intro l hl
    refine hl.imp ?_
    rintro a b hab rfl
    exact lt_irrefl _ hab
  refine List.Perm.eq_of_pairwise (fun a b _ _ => hasymm a b) hleft hright ?_
  rw [List.perm_ext_iff_of_nodup (hnodup _ hleft) (hnodup _ hright)]
  intro r
  rw [Postgres.orderByPath, (List.mergeSort_perm _ _).mem_iff, List.mem_filter, List.mem_map]
  constructor
  · rintro ⟨hr, hcond⟩
    obtain ⟨huser, hlisted⟩ := Bool.and_eq_true_iff.mp hcond
    obtain ⟨e, he, rfl⟩ := h.mem_rows.mp ⟨hr, beq_iff_eq.mp huser⟩
    refine ⟨e, List.mem_filterMap.mpr ⟨e.path,
        List.mem_filter.mpr ⟨mem_sortedPaths.mpr ⟨e, he, rfl⟩, ?_⟩, Table.mem_rows.mp he⟩, rfl⟩
    rw [← listed_eq (canonicalPath_slashes (h.stored e he).canonical)]
    exact hlisted
  · rintro ⟨e, he, rfl⟩
    obtain ⟨path, hpath, hget⟩ := List.mem_filterMap.mp he
    obtain ⟨hmem, hkey⟩ := Table.get?_eq_some.mp hget
    have hlisted := (List.mem_filter.mp hpath).2
    rw [← hkey] at hlisted
    obtain ⟨hr, huser⟩ := h.mem_rows.mpr ⟨e, hmem, rfl⟩
    refine ⟨hr, Bool.and_eq_true_iff.mpr ⟨beq_iff_eq.mpr huser, ?_⟩⟩
    exact (listed_eq (canonicalPath_slashes (h.stored e hmem).canonical) front recursive).trans
      hlisted

theorem listMaximum_pos (limit : Int) : 0 < listMaximum limit := by
  unfold listMaximum
  omega

/-- A listing has the same entries on both sides. -/
theorem Agrees.list (h : Agrees codec u m t) (front : String) (recursive : Bool) (limit : Int) :
    (Postgres.listWorkspaceEntries t u front recursive limit).map Postgres.ofRow =
      Memory.collect m front recursive (listMaximum limit) m.sortedPaths [] := by
  rw [collect_eq m front recursive m.sortedPaths (listMaximum_pos limit),
    Postgres.listWorkspaceEntries, h.orderByPath, List.nil_append, List.length_nil, Nat.sub_zero,
      List.map_take, List.map_map]
  congr 1
  have hblank : ∀ e ∈ (m.sortedPaths.filter (Memory.listed front recursive)).filterMap m.get?,
      (Postgres.ofRow ∘ rowOf codec u) e = e.blank := by
    intro e he
    obtain ⟨path, -, hget⟩ := List.mem_filterMap.mp he
    exact ofRow_rowOf (h.stored e (Table.get?_eq_some.mp hget).1)
  rw [List.map_congr_left hblank, List.map_filterMap]
  rfl

/-! ### Writing and deleting -/

theorem Agrees.put (h : Agrees codec u m t) (he : Stored e) {t' : EntryTable ε}
    (ht : ∀ path, t'.get? (u, path) = if e.path = path then some (rowOf codec u e)
      else t.get? (u, path)) :
    Agrees codec u (m.put e) t' := by
  refine ⟨fun path => ?_, fun x hx => ?_⟩
  · rw [ht, Table.get?_put]
    split_ifs
    · rfl
    · exact h.rows path
  · obtain hx | rfl := Table.mem_insert hx
    · exact h.stored x (List.mem_filter.mp hx).1
    · exact he

theorem cut_mimeOr_ne (mimeType : String) : cut 200 (mimeOr mimeType) ≠ "" := by
  have hne : mimeOr mimeType ≠ "" := by
    unfold mimeOr
    split_ifs with hempty
    · decide
    · exact hempty
  intro hcut
  apply hne
  have hlist := congrArg String.toList hcut
  rw [cut, String.toList_ofList] at hlist
  rw [← String.toList_inj]
  simpa using hlist

/-- The revision that a write has to name. -/
def Memory.actual (m : Memory) (path : String) : Nat := ((m.get? path).map (·.revision)).getD 0

theorem Agrees.putCas (h : Agrees codec u m t) (chatHas : String → Bool) (hkind : kind ≠ .artifact)
    (path content mimeType sourceRef : String) (expectedRevision : Int) :
    let e : WorkspaceEntry := ⟨path, kind, m.actual path + 1, content, mimeType, sourceRef⟩
    let result := Postgres.putWorkspaceEntryCas t chatHas u path kind
      (codec.sealAt path content.toUTF8) mimeType sourceRef expectedRevision
    ((m.actual path : Int) ≠ expectedRevision → result = (t, none)) ∧
    ((m.actual path : Int) = expectedRevision → result.2 = some (rowOf codec u e) ∧
      ∀ p, result.1.get? (u, p) = if path = p then some (rowOf codec u e) else t.get? (u, p)) := by
  unfold Postgres.putWorkspaceEntryCas Memory.actual
  dsimp only
  rw [if_neg fun hart => hkind hart.1, h.rows]
  cases hget : m.get? path with
  | none =>
    have hnone : t.get? (u, path) = none := by rw [h.rows, hget]; rfl
    refine ⟨fun hstale => if_pos hstale, fun hcurrent => ?_⟩
    have hnew : ¬(0 : Int) ≠ expectedRevision := not_not.mpr hcurrent
    dsimp only [Option.map_none]
    rw [if_neg hnew]
    refine ⟨rfl, fun p => ?_⟩
    rw [Table.get?_insert]
    by_cases hp : path = p
    · subst hp
      rw [if_pos ⟨hnone, rfl⟩, if_pos rfl]
      rfl
    · rw [if_neg (fun hkey => hp (Prod.ext_iff.mp hkey.2).2), if_neg hp]
  | some current =>
    have hcell : t.get? (u, path) = some (rowOf codec u current) := by rw [h.rows, hget]; rfl
    have hkey : current.path = path := Table.key_of_get? hget
    refine ⟨fun hstale => if_pos hstale, fun hcurrent => ?_⟩
    have hsame : ¬((rowOf codec u current).revision : Int) ≠ expectedRevision :=
      not_not.mpr hcurrent
    dsimp only [Option.map_some]
    rw [if_neg hsame]
    refine ⟨by rw [← hkey]; rfl, fun p => ?_⟩
    rw [Table.get?_modify]
    by_cases hp : path = p
    · subst hp
      have hmatch : ((rowOf codec u current).userId == u && (rowOf codec u current).path == path &&
          decide (((rowOf codec u current).revision : Int) = expectedRevision)) = true := by
        rw [decide_eq_true (not_not.mp hsame), Bool.and_true]
        simp [rowOf, hkey]
      rw [hcell, Option.map_some, if_pos hmatch, if_pos rfl, ← hkey]
      rfl
    · rw [if_neg hp]
      cases hother : t.get? (u, p) with
      | none => rfl
      | some r =>
        have hr : r.path = p := (Prod.ext_iff.mp (Table.key_of_get? hother)).2
        have hmiss : (r.userId == u && r.path == path &&
            decide ((r.revision : Int) = expectedRevision)) = false := by
          rw [hr, beq_false_of_ne fun heq => hp heq.symm, Bool.and_false, Bool.false_and]
        rw [Option.map_some, hmiss]
        rfl

/-- A write is refused with the same error, or it stores and returns the same entry. -/
theorem Agrees.writeInternal (h : Agrees codec u m t) (chatHas : String → Bool)
    (hpath : canonicalPath path false = .ok path) (hkind : kind ≠ .artifact) (content : String)
    (expectedRevision : Int) (mimeType sourceRef : String) :
    (∃ error, Memory.writeInternal m path content expectedRevision mimeType kind sourceRef =
      .error error ∧
      Postgres.writeInternal codec t chatHas u path content expectedRevision mimeType kind
        sourceRef = .error error) ∨
    ∃ m' t' e, Memory.writeInternal m path content expectedRevision mimeType kind sourceRef = .ok
      (m', e) ∧
      Postgres.writeInternal codec t chatHas u path content expectedRevision mimeType kind
        sourceRef = .ok (t', e) ∧
      Agrees codec u m' t' := by
  unfold Memory.writeInternal Postgres.writeInternal
  by_cases hfits : (!contentFits path content) = true
  · exact Or.inl ⟨_, if_pos hfits, if_pos hfits⟩
  rw [if_neg hfits, if_neg hfits]
  by_cases hnegative : expectedRevision < 0
  · exact Or.inl ⟨_, if_pos hnegative, if_pos hnegative⟩
  rw [if_neg hnegative, if_neg hnegative]
  obtain ⟨hstale, hcurrent⟩ := h.putCas chatHas hkind path content (cut 200 (mimeOr mimeType))
    (cut 512 sourceRef) expectedRevision
  by_cases hrevision : (m.actual path : Int) = expectedRevision
  · obtain ⟨hrow, hget⟩ := hcurrent hrevision
    have hstored : Stored ⟨path, kind, m.actual path + 1, content, cut 200 (mimeOr mimeType),
        cut 512 sourceRef⟩ :=
      ⟨hpath, cut_mimeOr_ne mimeType, Nat.succ_pos _⟩
    refine Or.inr ⟨_, _, _, if_neg (not_not.mpr hrevision), ?_, h.put hstored hget⟩
    generalize hresult : Postgres.putWorkspaceEntryCas t chatHas u path kind
      (codec.sealAt path content.toUTF8)
      (cut 200 (mimeOr mimeType)) (cut 512 sourceRef) expectedRevision = result at hrow
    obtain ⟨t', row⟩ := result
    subst hrow
    dsimp only
    rw [ofRow_rowOf hstored]
    rfl
  · exact Or.inl ⟨.conflict, if_pos hrevision, by rw [hstale hrevision]⟩

theorem filter_gone :
    ((t.rows.filter fun r => r.userId == u && r.path == path &&
      decide ((r.revision : Int) = expectedRevision)).length == 1) =
      (t.get? (u, path)).any fun r => decide ((r.revision : Int) = expectedRevision) := by
  rw [Bool.eq_iff_iff, beq_iff_eq, Option.any_eq_true]
  constructor
  · intro hone
    obtain ⟨r, hr⟩ := List.length_eq_one_iff.mp hone
    have hmem : r ∈ [r] := List.mem_cons_self
    rw [← hr, List.mem_filter] at hmem
    obtain ⟨hrow, hcond⟩ := hmem
    rw [Bool.and_eq_true, Bool.and_eq_true, beq_iff_eq, beq_iff_eq] at hcond
    exact ⟨r, Table.get?_eq_some.mpr ⟨hrow, Prod.ext hcond.1.1 hcond.1.2⟩, hcond.2⟩
  · rintro ⟨r, hr, hrevision⟩
    obtain ⟨hrow, hkey⟩ := Table.get?_eq_some.mp hr
    have hnodup : t.rows.Nodup := t.nodup.of_map
    have hsingle : (t.rows.filter fun r => r.userId == u && r.path == path &&
        decide ((r.revision : Int) = expectedRevision)).Perm [r] := by
      rw [List.perm_ext_iff_of_nodup (hnodup.filter _) (List.nodup_singleton r)]
      intro x
      rw [List.mem_filter, List.mem_singleton, Bool.and_eq_true, Bool.and_eq_true, beq_iff_eq,
        beq_iff_eq]
      constructor
      · rintro ⟨hx, ⟨huser, hpath⟩, -⟩
        exact List.inj_on_of_nodup_map t.nodup hx hrow
          ((Prod.ext huser hpath : x.key = (u, path)).trans hkey.symm)
      · rintro rfl
        obtain ⟨huser, hpath⟩ := Prod.ext_iff.mp hkey
        exact ⟨hrow, ⟨huser, hpath⟩, hrevision⟩
    exact hsingle.length_eq

theorem Agrees.erase (h : Agrees codec u m t) {current : WorkspaceEntry}
    (hget : m.get? path = some current) (hrevision : (current.revision : Int) = expectedRevision) :
    Agrees codec u (m.erase fun e => e.path == path)
      (t.erase fun r => r.userId == u && r.path == path &&
        decide ((r.revision : Int) = expectedRevision)) := by
  refine ⟨fun p => ?_, fun e he => h.stored e (List.mem_filter.mp he).1⟩
  rw [Table.get?_erase, Table.get?_erase, h.rows]
  cases hp : m.get? p with
  | none => rfl
  | some e =>
    have hkey : e.path = p := Table.key_of_get? hp
    by_cases heq : p = path
    · subst heq
      rw [hget] at hp
      cases hp
      simp [Option.filter, rowOf, hkey, hrevision]
    · simp [Option.filter, rowOf, hkey, heq]

/-! ### Calls -/

/-- The deletion of a file that is not there. -/
def missingDelete (m : Memory) : Call → Bool
  | .delete raw _ => (modelWritablePath raw).toOption.any fun path => (m.get? path).isNone
  | _ => false

theorem Agrees.call_list (h : Agrees codec u m t) (chatHas : String → Bool) (raw : String)
    (recursive : Bool) (limit : Int) :
    (Postgres.call codec chatHas u t (.list raw recursive limit)).2 =
      (m.call (.list raw recursive limit)).2 ∧
    Agrees codec u (m.call (.list raw recursive limit)).1
      (Postgres.call codec chatHas u t (.list raw recursive limit)).1 := by
  have hlist : Postgres.list t u raw recursive limit = m.list raw recursive limit := by
    unfold Postgres.list Memory.list
    cases canonicalPath raw true with
    | error e => rfl
    | ok front => exact congrArg Except.ok (h.list front recursive limit)
  rw [Postgres.call, Memory.call, hlist]
  cases m.list raw recursive limit with
  | error e => exact ⟨rfl, h⟩
  | ok rows => exact ⟨rfl, h⟩

theorem fromUTF8?_toUTF8 (text : String) : String.fromUTF8? text.toUTF8 = some text := by
  have hvalid : text.toUTF8.IsValidUTF8 := text.isValidUTF8
  rw [String.fromUTF8?, dif_pos hvalid]
  rfl

section

variable (h : Agrees codec u m t)
include h

theorem Agrees.call_read (chatHas : String → Bool) (raw : String) :
    (Postgres.call codec chatHas u t (.read raw)).2 = (m.call (.read raw)).2 ∧
    Agrees codec u (m.call (.read raw)).1 (Postgres.call codec chatHas u t (.read raw)).1 := by
  have hread : Postgres.read codec t u raw = m.read raw := by
    unfold Postgres.read Memory.read
    cases hpath : canonicalPath raw false with
    | error e => rfl
    | ok path =>
      dsimp only [bind, Except.bind]
      rw [h.rows]
      cases hget : m.get? path with
      | none => rfl
      | some e =>
        have hkey : e.path = path := Table.key_of_get? hget
        have hopen : codec.openAt path (rowOf codec u e).contentEnvelope = e.content.toUTF8 := by
          rw [← hkey]
          exact codec.openAt_sealAt _ _
        dsimp only [Option.map_some]
        rw [hopen, fromUTF8?_toUTF8]
        dsimp only
        rw [ofRow_rowOf (h.stored e (Table.get?_eq_some.mp hget).1)]
        rfl
  rw [Postgres.call, Memory.call, hread]
  cases m.read raw with
  | error e => exact ⟨rfl, h⟩
  | ok e => exact ⟨rfl, h⟩

theorem Agrees.write (chatHas : String → Bool) (raw content : String) (expectedRevision : Int)
    (mimeType : String) : (∃ error, m.write raw content expectedRevision mimeType = .error error ∧
      Postgres.write codec t chatHas u raw content expectedRevision mimeType = .error error) ∨
    ∃ m' t' e, m.write raw content expectedRevision mimeType = .ok (m', e) ∧
      Postgres.write codec t chatHas u raw content expectedRevision mimeType = .ok (t', e) ∧
        Agrees codec u m' t' := by
  unfold Postgres.write Memory.write
  cases hwritable : modelWritablePath raw with
  | error e => exact Or.inl ⟨e, rfl, rfl⟩
  | ok path =>
    obtain ⟨-, kind, hkind, hart⟩ := modelWritablePath_inv hwritable
    have hpath := (modelWritablePath_inv (modelWritablePath_again hwritable)).1
    dsimp only [bind, Except.bind]
    rw [hkind]
    exact h.writeInternal chatHas hpath hart content expectedRevision mimeType ""

theorem Agrees.call_write (chatHas : String → Bool) (raw content : String) (expectedRevision : Int)
    (mimeType : ColumnText) :
    (Postgres.call codec chatHas u t (.write raw content expectedRevision mimeType)).2 =
      (m.call (.write raw content expectedRevision mimeType)).2 ∧
    Agrees codec u (m.call (.write raw content expectedRevision mimeType)).1
      (Postgres.call codec chatHas u t (.write raw content expectedRevision mimeType)).1 := by
  obtain ⟨e, hmemory, hpostgres⟩ | ⟨m', t', e, hmemory, hpostgres, hagrees⟩ :=
    h.write chatHas raw content expectedRevision mimeType.1
  · rw [Postgres.call, Memory.call, hmemory, hpostgres]
    exact ⟨rfl, h⟩
  · rw [Postgres.call, Memory.call, hmemory, hpostgres]
    exact ⟨rfl, hagrees⟩

theorem Agrees.delete {raw path : String} (hwritable : modelWritablePath raw = .ok path)
    (expectedRevision : Int) :
    m.get? path = none ∧ m.delete raw expectedRevision = .error .notFound ∧
      Postgres.delete t u raw expectedRevision = .error .conflict ∨
    (∃ current, m.get? path = some current ∧ m.delete raw expectedRevision = .error .conflict ∧
      Postgres.delete t u raw expectedRevision = .error .conflict) ∨
    ∃ current m' t', m.get? path = some current ∧ m.delete raw expectedRevision = .ok m' ∧
      Postgres.delete t u raw expectedRevision = .ok t' ∧ Agrees codec u m' t' := by
  simp only [Postgres.delete, Memory.delete, Postgres.deleteWorkspaceEntryCas, hwritable, bind,
    Except.bind, filter_gone, h.rows]
  cases hget : m.get? path with
  | none =>
    refine Or.inl ⟨rfl, rfl, ?_⟩
    split_ifs <;> rfl
  | some current =>
    have hpositive := (h.stored current (Table.get?_eq_some.mp hget).1).positive
    by_cases hrevision : (current.revision : Int) = expectedRevision
    · have hnot : ¬expectedRevision ≤ 0 := by omega
      refine Or.inr (Or.inr ⟨current, _, _, rfl, ?_, ?_, h.erase hget hrevision⟩)
      · dsimp only
        rw [if_neg (not_not.mpr hrevision)]
        rfl
      · have hany : ((some current).map (rowOf codec u)).any
            (fun r => decide ((r.revision : Int) = expectedRevision)) = true :=
          decide_eq_true hrevision
        rw [if_neg hnot, hany]
        rfl
    · refine Or.inr (Or.inl ⟨current, rfl, ?_, ?_⟩)
      · dsimp only
        rw [if_pos hrevision]
        rfl
      · have hany : ((some current).map (rowOf codec u)).any
            (fun r => decide ((r.revision : Int) = expectedRevision)) = false :=
          decide_eq_false hrevision
        rw [hany]
        split_ifs <;> rfl

/-- One call: the same answer on both sides but for a missing file, and the same entries
afterwards. -/
theorem Agrees.call (chatHas : String → Bool) (c : Call) :
    (if missingDelete m c then (m.call c).2 = .raised .notFound ∧
      (Postgres.call codec chatHas u t c).2 = .raised .conflict
      else (Postgres.call codec chatHas u t c).2 = (m.call c).2) ∧
    Agrees codec u (m.call c).1 (Postgres.call codec chatHas u t c).1 := by
  cases c with
  | list raw recursive limit => exact h.call_list chatHas raw recursive limit
  | read raw => exact h.call_read chatHas raw
  | write raw content expectedRevision mimeType =>
    exact h.call_write chatHas raw content expectedRevision mimeType
  | delete raw expectedRevision =>
    rw [missingDelete, Postgres.call, Memory.call]
    cases hwritable : modelWritablePath raw with
    | error e =>
      have hmemory : m.delete raw expectedRevision = .error e := by
        rw [Memory.delete, hwritable]; rfl
      have hpostgres : Postgres.delete t u raw expectedRevision = .error e := by
        rw [Postgres.delete, hwritable]; rfl
      rw [hmemory, hpostgres]
      exact ⟨rfl, h⟩
    | ok path =>
      obtain ⟨hget, hmemory, hpostgres⟩ | ⟨current, hget, hmemory, hpostgres⟩ | ⟨current, m', t',
        hget, hmemory, hpostgres, hagrees⟩ :=
        h.delete hwritable expectedRevision
      · rw [hmemory, hpostgres, if_pos (by rw [Except.toOption, Option.any_some, hget]; rfl)]
        exact ⟨⟨rfl, rfl⟩, h⟩
      · rw [hmemory, hpostgres,
          if_neg (by rw [Except.toOption, Option.any_some, hget]; exact Bool.false_ne_true)]
        exact ⟨rfl, h⟩
      · rw [hmemory, hpostgres,
          if_neg (by rw [Except.toOption, Option.any_some, hget]; exact Bool.false_ne_true)]
        exact ⟨rfl, hagrees⟩

/-- Any sequence of calls leaves the same entries on both sides. -/
theorem Agrees.run (chatHas : String → Bool) (calls : List Call) :
    Agrees codec u (Runs.run (fun m c => (Memory.call m c).1) m calls)
      (Runs.run (fun t c => (Postgres.call codec chatHas u t c).1) t calls) := by
  induction calls generalizing m t with
  | nil => exact h
  | cons c calls ih => exact ih (h.call chatHas c).2

end

end Simulation

/-- From an empty workspace, after any calls: a call returns the same on both backends or raises the
same error, but for the deletion of a missing file, which is not found in memory and a conflict in
the database. -/
theorem workspace_backends_agree {ε : Type} (codec : Codec ε) (chatHas : String → Bool) (u : UserId)
    (t : EntryTable ε) (hempty : ∀ path, t.get? (u, path) = none) (calls : List Call) (c : Call) :
    let memory := Runs.run (fun m c => (Memory.call m c).1) Table.empty calls
    let table := Runs.run (fun t c => (Postgres.call codec chatHas u t c).1) t calls
    if missingDelete memory c then
      (memory.call c).2 = .raised .notFound ∧
        (Postgres.call codec chatHas u table c).2 = .raised .conflict
    else (Postgres.call codec chatHas u table c).2 = (memory.call c).2 := by
  intro memory table
  have hstart : Agrees codec u Table.empty t := by
    refine ⟨fun path => hempty path, fun e he => ?_⟩
    cases he
  exact ((hstart.run chatHas calls).call chatHas c).1

def plainCodec : Codec ByteArray := ⟨fun _ plaintext => plaintext, fun _ envelope => envelope,
    fun _ _ => rfl⟩

def creation : List Call := [.write "/workspace/a" "text" 0 ⟨"", by decide⟩]

theorem workspace_backends_agree_read :
    let table := Runs.run (fun t c => (Postgres.call plainCodec (fun _ => false) "u" t c).1)
      Table.empty creation
    (Postgres.call plainCodec (fun _ => false) "u" table (.read "/workspace/a")).2 =
      .entry ⟨"/workspace/a", .workspace, 1, "text", "text/plain", ""⟩ := by
  intro table
  have hagree := workspace_backends_agree plainCodec (fun _ => false) "u" Table.empty
    (fun _ => rfl) creation (.read "/workspace/a")
  exact hagree.trans (by decide +kernel)

theorem delete_missing_differs :
    (Memory.call Table.empty (.delete "/workspace/a" 1)).2 = .raised .notFound ∧
    (Postgres.call plainCodec (fun _ => false) "u" Table.empty (.delete "/workspace/a" 1)).2 =
      .raised .conflict := by
  decide +kernel

end Backends

end Feedling
