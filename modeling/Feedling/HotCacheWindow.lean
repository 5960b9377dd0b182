import Feedling.HotCache

/-!
# The window of the hot chat cache

A set of cached rows is good at a version if each row is the stored one or was changed after the
version, and each stored row from the edge on is cached or was changed after the version. Merges,
replays and snapshots keep this; the cut to the limit keeps it if no row below the edge survives the
cut.
-/

namespace Feedling

namespace HotChat

open KeyedTable (Table)
open SortedWindow

variable {φ ν : Type} {db db' : ChatDb φ ν} {version edge limit : Nat}
  {t : Table (ChatRow.id : ChatRow φ ν → String)}

/-! ## Good sets of rows -/

structure Good (db : ChatDb φ ν) (version edge : Nat)
    (t : Table (ChatRow.id : ChatRow φ ν → String)) : Prop where
  known : ∀ r ∈ t.rows, db.born r.seq = some r.id
  current : ∀ r ∈ t.rows, db.Dirty version r.id ∨ db.rows.get? r.id = some r
  complete : ∀ r ∈ db.rows.rows, edge ≤ r.seq → db.Dirty version r.id ∨ (t.get? r.id).isSome = true

theorem Evolves.current (hev : Evolves db db') (hversion : version ≤ db.version) {id : String}
    {x : Option (ChatRow φ ν)} (h : db.Dirty version id ∨ db.rows.get? id = x) :
    db'.Dirty version id ∨ db'.rows.get? id = x := by
  obtain hdirty | hget := h
  · exact .inl (hev.dirty hdirty)
  · exact (hev.rows_of_le hversion id).symm.imp_right fun hsame => hsame.trans hget

theorem Good.evolve (h : Good db version edge t) (hev : Evolves db db')
    (hversion : version ≤ db.version) : Good db' version edge t := by
  refine ⟨fun r hr => hev.born _ _ (h.known r hr),
    fun r hr => hev.current hversion (h.current r hr), fun r hr hedge => ?_⟩
  · obtain hsame | hdirty := hev.rows_of_le hversion r.id
    · have hold : r ∈ db.rows.rows := Table.mem_rows.mpr (hsame.symm.trans (Table.mem_rows.mp hr))
      exact (h.complete r hold hedge).imp_left hev.dirty
    · exact .inl hdirty

variable {rows : List (ChatRow φ ν)} {r : ChatRow φ ν} {c : Cache φ ν} {a : LocalApply φ ν}
  (d : Doc φ ν)

/-- A stored row that is cached under its id is the cached row, or has changed. -/
theorem Good.mem_of_isSome (h : Good db version edge t) (hr : r ∈ db.rows.rows)
    (hsome : (t.get? r.id).isSome = true) : db.Dirty version r.id ∨ r ∈ t.rows := by
  obtain ⟨x, hx⟩ := Option.isSome_iff_exists.mp hsome
  obtain ⟨hmem, hid⟩ := Table.get?_eq_some.mp hx
  obtain hdirty | hget := h.current x hmem
  · exact .inl (hid ▸ hdirty)
  · rw [hid, Table.mem_rows.mp hr] at hget
    rw [Option.some.inj hget]
    exact .inr hmem

/-- Fewer rows are good from a later edge on, if the stored ones among them that go have changed. -/
theorem Good.sub {t' : Table (ChatRow.id : ChatRow φ ν → String)} {edge' : Nat}
    (h : Good db version edge t) (hedge : edge ≤ edge') (hsub : ∀ r ∈ t'.rows, r ∈ t.rows)
    (hkeep : ∀ r ∈ t.rows, r ∈ db.rows.rows → edge' ≤ r.seq → db.Dirty version r.id ∨ r ∈ t'.rows) :
    Good db version edge' t' := by
  refine ⟨fun r hr => h.known r (hsub r hr), fun r hr => h.current r (hsub r hr),
    fun r hr hle => ?_⟩
  obtain hdirty | hsome := h.complete r hr (Nat.le_trans hedge hle)
  · exact .inl hdirty
  obtain hdirty | hin := h.mem_of_isSome hr hsome
  · exact .inl hdirty
  exact (hkeep r hin hr hle).imp_right fun hkept => Option.isSome_iff_exists.mpr ⟨r,
    Table.mem_rows.mp hkept⟩

theorem nodup_seq (hknown : ∀ r ∈ t.rows, db.born r.seq = some r.id) :
    (t.rows.map ChatRow.seq).Nodup := by
  have hnodup : t.rows.Nodup := List.Nodup.of_map _ t.nodup
  refine hnodup.map_on fun a ha b hb hseq => ?_
  have hid := (hknown a ha).symm.trans (hseq ▸ hknown b hb)
  exact List.inj_on_of_nodup_map t.nodup ha hb (Option.some.inj hid)

/-! ## Cached rows -/

/-- A row below the edge is merged only if the rows from the edge on fill the cache. -/
def WindowFull (limit edge : Nat) (rows : List (ChatRow φ ν)) : Prop :=
  ∀ r ∈ rows, r.seq < edge → max 1 limit ≤ (rows.filter fun x => decide (edge ≤ x.seq)).length

instance (limit edge : Nat) (rows : List (ChatRow φ ν)) : Decidable (WindowFull limit edge rows) :=
  inferInstanceAs (Decidable (∀ r ∈ rows, _ → _))

theorem windowFull_of_le (h : ∀ r ∈ rows, edge ≤ r.seq) : WindowFull limit edge rows :=
  fun r hr hlt => absurd (h r hr) (Nat.not_le.mpr hlt)

structure Faithful (db : ChatDb φ ν) (limit : Nat) (c : Cache φ ν) : Prop where
  good : Good db c.version c.edge c.index
  ids : (c.rows.map ChatRow.id).Nodup
  sorted : c.rows.Pairwise fun a b => a.seq < b.seq
  length : c.rows.length ≤ max 1 limit
  above : ∀ r ∈ c.rows, c.edge ≤ r.seq

theorem Faithful.evolve (h : Faithful db limit c) (hev : Evolves db db')
    (hversion : c.version ≤ db.version) : Faithful db' limit c :=
  ⟨h.good.evolve hev hversion, h.ids, h.sorted, h.length, h.above⟩

theorem Faithful.mem_index (h : Faithful db limit c) : r ∈ c.index.rows ↔ r ∈ c.rows :=
  by rw [Cache.index, Table.rows_ofRows h.ids]

theorem lt_length_of_window {rows kept : List (ChatRow φ ν)} (hrows : rows.Nodup)
    {first : ChatRow φ ν} (hfirst : first.seq < edge) (hmem : first ∈ kept)
    (hkept : ∀ r ∈ rows, edge ≤ r.seq → r ∈ kept) :
    (rows.filter fun x => decide (edge ≤ x.seq)).length < kept.length := by
  have hnodup : (first :: rows.filter fun x => decide (edge ≤ x.seq)).Nodup := by
    refine List.nodup_cons.mpr ⟨fun hin => ?_, hrows.filter _⟩
    exact absurd (of_decide_eq_true (List.mem_filter.mp hin).2) (Nat.not_le.mpr hfirst)
  have hsub : (first :: rows.filter fun x => decide (edge ≤ x.seq)) ⊆ kept := by
    intro r hr
    obtain rfl | hr := List.mem_cons.mp hr
    · exact hmem
    · obtain ⟨hin, hle⟩ := List.mem_filter.mp hr
      exact hkept r hin (of_decide_eq_true hle)
  exact (List.subperm_of_subset hnodup hsub).length_le

/-- `_replace_chat_rows_locked` keeps good rows good. -/
theorem replaceRows_faithful (c : Cache φ ν) (hgood : Good db version edge (Table.ofRows rows))
    (hfull : WindowFull limit edge (Table.ofRows rows : Table (ChatRow.id : ChatRow φ ν →
      String)).rows) :
    Faithful db limit (c.replaceRows limit rows version edge) := by
  generalize ht : (Table.ofRows rows : Table (ChatRow.id : ChatRow φ ν → String)) = t at hgood hfull
  have hnodup : t.rows.Nodup := List.Nodup.of_map _ t.nodup
  have hsorted := pairwise_sortBy (nodup_seq hgood.known)
  have hids : ((sortBy ChatRow.seq t.rows).map ChatRow.id).Nodup :=
    ((perm_sortBy t.rows).map ChatRow.id).nodup_iff.mpr t.nodup
  generalize hnewest : newest (max 1 limit) (sortBy ChatRow.seq t.rows) = kept
  have hsuffix : kept <:+ sortBy ChatRow.seq t.rows := hnewest ▸ newest_suffix _ _
  have hkept : ∀ r ∈ kept, r ∈ t.rows := fun r hr => mem_sortBy.mp (hsuffix.subset hr)
  have hnewids := hids.sublist (hsuffix.sublist.map ChatRow.id)
  have hlength : kept.length ≤ max 1 limit := hnewest ▸ length_newest_le _ _
  have hfaithful : ∀ edge', edge ≤ edge' → (∀ r ∈ t.rows, r ∈ kept ↔ edge' ≤ r.seq) →
      Faithful db limit ⟨kept, version, c.generation + 1, edge'⟩ := by
    intro edge' hedge hiff
    have hrows := Table.rows_ofRows hnewids
    refine ⟨hgood.sub hedge (fun r hr => hkept r (hrows ▸ hr)) fun r hin _ hle => .inr ?_, hnewids,
      hsorted.sublist hsuffix.sublist, hlength, fun r hr => (hiff r (hkept r hr)).mp hr⟩
    rw [Cache.index, hrows]
    exact (hiff r hin).mpr hle
  rw [Cache.replaceRows, ht, length_sortBy, hnewest]
  by_cases hcut : max 1 limit < t.rows.length
  · -- the edge moves to the first row that is kept
    obtain ⟨first, hfirst⟩ : ∃ first, kept.head? = some first := by
      refine hnewest ▸ exists_head?_newest
        (Nat.lt_of_lt_of_le Nat.zero_lt_one (Nat.le_max_left 1 limit)) ?_
      refine List.ne_nil_of_length_pos ?_
      rw [length_sortBy]
      exact Nat.lt_of_le_of_lt (Nat.zero_le _) hcut
    have hiff : ∀ r ∈ t.rows, r ∈ kept ↔ first.seq ≤ r.seq :=
      fun r hr => hnewest ▸ mem_newest_iff hsorted (hnewest ▸ hfirst) (mem_sortBy.mpr hr)
    have hmem := List.mem_of_mem_head? hfirst
    rw [if_pos hcut, hfirst]
    refine hfaithful first.seq ?_ hiff
    by_contra hlt
    have hbelow := Nat.not_le.mp hlt
    have hmore := lt_length_of_window hnodup hbelow hmem fun r hr hle =>
      (hiff r hr).mpr (Nat.le_of_lt (Nat.lt_of_lt_of_le hbelow hle))
    exact absurd (Nat.lt_of_lt_of_le hmore hlength)
      (Nat.not_lt.mpr (hfull first (hkept first hmem) hbelow))
  · have hall : kept = sortBy ChatRow.seq t.rows := by
      rw [← hnewest]
      refine newest_eq_self ?_
      rw [length_sortBy]
      exact Nat.not_lt.mp hcut
    rw [if_neg hcut]
    refine hfaithful edge (Nat.le_refl _) fun r hr => ⟨fun _ => ?_,
      fun _ => hall ▸ mem_sortBy.mpr hr⟩
    by_contra hlt
    have hbelow := Nat.not_le.mp hlt
    have hmore := lt_length_of_window hnodup hbelow hr fun r hr _ => hr
    exact absurd (Nat.lt_of_le_of_lt (hfull r hr hbelow) hmore) hcut

/-! ## Writes of this worker -/

@[simp] theorem Doc.merge_self : d.merge d = d := by
  funext k
  exact Option.or_self

theorem Doc.merge_restrict (keys : φ → Bool) :
    d.merge (fun k => if keys k then d k else none) = d := by
  funext k
  rw [Doc.merge]
  split_ifs
  · exact Option.or_self
  · exact Option.none_or

/-- A committed row that has not changed since, or whose change the cache has not seen, is
merged. -/
theorem Good.mergeRow (h : Good db version edge t) (hknown : db.born r.seq = some r.id)
    (hcurrent : db.Dirty version r.id ∨ db.rows.get? r.id = some r) :
    Good db version edge (Cache.mergeRow t r) := by
  -- the row that is put has the id and the number of `r`, and is `r` itself unless it is dirty
  obtain ⟨m, hm, hid, hseq, hrow⟩ : ∃ m : ChatRow φ ν, Cache.mergeRow t r = t.put m ∧ m.id = r.id ∧
    m.seq = r.seq ∧
      (db.Dirty version r.id ∨ m = r ∧ db.rows.get? r.id = some r) := by
    rw [Cache.mergeRow]
    cases hget : t.get? r.id with
    | none => exact ⟨r, rfl, rfl, rfl, hcurrent.imp_right fun h => ⟨rfl, h⟩⟩
    | some x =>
      refine ⟨_, rfl, rfl, rfl, ?_⟩
      obtain ⟨hx, hxid⟩ := Table.get?_eq_some.mp hget
      obtain hdirty | hstored := hcurrent
      · exact .inl hdirty
      obtain hdirty | hxstored := h.current x hx
      · exact .inl (hxid ▸ hdirty)
      · rw [hxid, hstored] at hxstored
        obtain rfl := Option.some.inj hxstored
        exact .inr ⟨by simp, hstored⟩
  rw [hm]
  have hmem : ∀ x ∈ (t.put m).rows, x = m ∨ x ∈ t.rows := by
    intro x hx
    have hget := Table.mem_rows.mp hx
    rw [Table.get?_put] at hget
    split_ifs at hget
    · exact .inl (Option.some.inj hget).symm
    · exact .inr (Table.mem_rows.mpr hget)
  refine ⟨fun x hx => ?_, fun x hx => ?_, fun x hx hedge => ?_⟩
  · obtain rfl | hx := hmem x hx
    · rw [hid, hseq, hknown]
    · exact h.known x hx
  · obtain rfl | hx := hmem x hx
    · rw [hid]
      exact hrow.imp_right fun h => by rw [h.1]; exact h.2
    · exact h.current x hx
  · refine (h.complete x hx hedge).imp_right fun hsome => ?_
    rw [Table.get?_put]
    split_ifs
    · rfl
    · exact hsome

theorem Good.mergeRows (hknown : ∀ r ∈ rows, db.born r.seq = some r.id)
    (hcurrent : ∀ r ∈ rows, db.Dirty version r.id ∨ db.rows.get? r.id = some r)
    (h : Good db version edge t) :
    Good db version edge (rows.foldl Cache.mergeRow t) := by
  induction rows generalizing t with
  | nil => exact h
  | cons r rows ih =>
    exact ih (fun x hx => hknown x (List.mem_cons_of_mem r hx))
      (fun x hx => hcurrent x (List.mem_cons_of_mem r hx))
      (h.mergeRow (hknown r List.mem_cons_self) (hcurrent r List.mem_cons_self))

theorem Good.congr {t' : Table (ChatRow.id : ChatRow φ ν → String)} (h : Good db version edge t)
    (hget : ∀ id, t'.get? id = t.get? id) : Good db version edge t' := by
  have hmem : ∀ r, r ∈ t'.rows ↔ r ∈ t.rows := by
    intro r
    rw [Table.mem_rows, Table.mem_rows, hget]
  exact h.sub (Nat.le_refl _) (fun r => (hmem r).mp) fun r hr _ _ => .inr ((hmem r).mpr hr)

/-- What is known about a write that the cache has not seen. -/
def LocalApply.Ok (db : ChatDb φ ν) : LocalApply φ ν → Prop
  | .rows version rs =>
    ∀ r ∈ rs, db.born r.seq = some r.id ∧ (db.Dirty version r.id ∨ db.rows.get? r.id = some r)
  | .fields version id doc =>
    db.Dirty version id ∨ ∀ r, db.rows.get? id = some r → r.doc.merge doc = r.doc
  | .removed version ids => ∀ id ∈ ids, db.Dirty version id ∨ db.rows.get? id = none
  | .cleared version => ∀ r ∈ db.rows.rows, db.Dirty version r.id

theorem LocalApply.Ok.evolve (h : a.Ok db) (hev : Evolves db db')
    (hversion : a.version ≤ db.version) : a.Ok db' := by
  cases a with
  | rows version rs =>
    intro r hr
    exact ⟨hev.born _ _ (h r hr).1, hev.current hversion (h r hr).2⟩
  | fields version id doc =>
    obtain hdirty | hmerge := h
    · exact .inl (hev.dirty hdirty)
    · refine (hev.rows_of_le hversion id).symm.imp_right fun hsame r hr => ?_
      exact hmerge r (hsame.symm.trans hr)
  | removed version ids => exact fun id hid => hev.current hversion (h id hid)
  | cleared version =>
    intro r hr
    obtain hsame | hdirty := hev.rows_of_le hversion r.id
    · exact hev.dirty (h r (Table.mem_rows.mpr (hsame.symm.trans (Table.mem_rows.mp hr))))
    · exact hdirty

/-- No change after the write of a row that it is about has reached the cache. -/
def LocalApply.NotOvertaken (db : ChatDb φ ν) (version : Nat) (a : LocalApply φ ν) : Prop :=
  ∀ e ∈ db.log, a.version < e.version → e.version ≤ version → ∀ id ∈ e.touched,
    a.concerns id = false

instance (db : ChatDb φ ν) (version : Nat) (a : LocalApply φ ν) :
    Decidable (a.NotOvertaken db version) :=
  inferInstanceAs (Decidable (∀ e ∈ db.log, _ → _ → _))

theorem LocalApply.NotOvertaken.dirty (h : a.NotOvertaken db version) {id : String}
    (hconcerns : a.concerns id = true) (hdirty : db.Dirty a.version id) : db.Dirty version id := by
  obtain ⟨e, he, hlt, hid⟩ := hdirty
  refine ⟨e, he, ?_, hid⟩
  by_contra hle
  have hfalse := h e he hlt (Nat.not_lt.mp hle) id hid
  rw [hconcerns] at hfalse
  cases hfalse

section Apply

variable {c : Cache φ ν}

theorem applyCommittedChatRows_faithful (h : Faithful db limit c) {v : Nat}
    {rs : List (ChatRow φ ν)} (hok : (LocalApply.rows v rs).Ok db)
    (hovertaken : (LocalApply.rows v rs).NotOvertaken db c.version)
    (hfull : WindowFull limit c.edge (c.mergeRows rs).rows) :
    Faithful db limit (c.applyCommittedChatRows limit rs) := by
  have hgood : Good db c.version c.edge (c.mergeRows rs) := by
    refine Good.mergeRows (fun r hr => (hok r hr).1) (fun r hr => ?_) h.good
    refine (hok r hr).2.imp_left fun hdirty => hovertaken.dirty ?_ hdirty
    exact List.any_eq_true.mpr ⟨r, hr, beq_self_eq_true _⟩
  refine replaceRows_faithful c (hgood.congr fun id => Table.get?_ofRows
      (c.mergeRows rs).nodup id) ?_
  rw [Table.rows_ofRows (c.mergeRows rs).nodup]
  exact hfull

theorem Faithful.filter (h : Faithful db limit c) {p : ChatRow φ ν → Bool}
    (hremoved : ∀ r ∈ db.rows.rows, p r = false → db.Dirty c.version r.id) :
    Good db c.version c.edge (Table.ofRows (c.rows.filter p)) := by
  have hids : ((c.rows.filter p).map ChatRow.id).Nodup := h.ids.sublist (List.filter_sublist.map _)
  have hmem : ∀ r,
      r ∈ (Table.ofRows (c.rows.filter p) : Table (ChatRow.id : ChatRow φ ν → String)).rows ↔
        r ∈ c.rows ∧ p r = true := by
    intro r
    rw [Table.rows_ofRows hids, List.mem_filter]
  refine h.good.sub (Nat.le_refl _) (fun r hr => h.mem_index.mpr ((hmem r).mp hr).1)
    fun r hin hr _ => ?_
  cases hp : p r with
  | false => exact .inl (hremoved r hr hp)
  | true => exact .inr ((hmem r).mpr ⟨h.mem_index.mp hin, hp⟩)

theorem removeCommittedChatIds_faithful (h : Faithful db limit c) {v : Nat} {ids : List String}
    (hok : (LocalApply.removed v ids : LocalApply φ ν).Ok db)
    (hovertaken : (LocalApply.removed v ids : LocalApply φ ν).NotOvertaken db c.version) :
    Faithful db limit (c.removeCommittedChatIds limit ids) := by
  rw [Cache.removeCommittedChatIds]
  split_ifs
  · have hids : ((c.rows.filter fun r => decide (r.id ∉ ids)).map ChatRow.id).Nodup :=
      h.ids.sublist (List.filter_sublist.map _)
    refine replaceRows_faithful c (h.filter fun r hr hout => ?_) (windowFull_of_le fun r hr => ?_)
    · have hin : r.id ∈ ids := by simpa using hout
      obtain hdirty | hnone := hok r.id hin
      · exact hovertaken.dirty (decide_eq_true hin) hdirty
      · rw [Table.mem_rows.mp hr] at hnone
        cases hnone
    · rw [Table.rows_ofRows hids] at hr
      exact h.above r (List.mem_of_mem_filter hr)
  · exact h

theorem applyCommittedChatClear_faithful {v : Nat}
    (hok : (LocalApply.cleared v : LocalApply φ ν).Ok db)
    (hovertaken : (LocalApply.cleared v : LocalApply φ ν).NotOvertaken db c.version) :
    Faithful db limit c.applyCommittedChatClear := by
  refine ⟨⟨nofun, nofun, fun r hr _ => .inl ?_⟩, List.nodup_nil, List.Pairwise.nil, Nat.zero_le _,
    nofun⟩
  exact hovertaken.dirty rfl (hok r hr)

@[simp] theorem updateRow_id (id : String) (doc : Doc φ ν) (r : ChatRow φ ν) :
    (Cache.updateRow id doc r).id = r.id := by
  rw [Cache.updateRow]
  split_ifs <;> rfl

@[simp] theorem updateRow_seq (id : String) (doc : Doc φ ν) (r : ChatRow φ ν) :
    (Cache.updateRow id doc r).seq = r.seq := by
  rw [Cache.updateRow]
  split_ifs <;> rfl

theorem updateCachedChatRow_faithful (h : Faithful db limit c) {v : Nat} {id : String}
    {doc : Doc φ ν} (hok : (LocalApply.fields v id doc).Ok db)
    (hovertaken : (LocalApply.fields v id doc).NotOvertaken db c.version) :
    Faithful db limit (c.updateCachedChatRow id doc) := by
  rw [Cache.updateCachedChatRow]
  split
  · exact h
  have hids : (c.rows.map (Cache.updateRow id doc)).map ChatRow.id = c.rows.map ChatRow.id := by
    simp
  have hnodup : ((c.rows.map (Cache.updateRow id doc)).map ChatRow.id).Nodup := by
    rw [hids]
    exact h.ids
  -- an updated row that is not dirty is the stored one, and the fields are its own
  have hrow : ∀ r ∈ c.rows, db.Dirty c.version r.id ∨ Cache.updateRow id doc r = r ∧
      db.rows.get? r.id = some r := by
    intro r hr
    obtain hdirty | hget := h.good.current r (h.mem_index.mpr hr)
    · exact .inl hdirty
    rw [Cache.updateRow]
    split_ifs with hid
    · subst hid
      obtain hdirty | hmerge := hok
      · exact .inl (hovertaken.dirty (beq_self_eq_true _) hdirty)
      · exact .inr ⟨by rw [hmerge r hget], hget⟩
    · exact .inr ⟨rfl, hget⟩
  refine ⟨⟨fun m hm => ?_, fun m hm => ?_, fun r hr hedge => ?_⟩, hnodup, ?_, ?_, ?_⟩
  · rw [Cache.index, Table.rows_ofRows hnodup] at hm
    obtain ⟨r, hr, rfl⟩ := List.mem_map.mp hm
    rw [updateRow_seq, updateRow_id]
    exact h.good.known r (h.mem_index.mpr hr)
  · rw [Cache.index, Table.rows_ofRows hnodup] at hm
    obtain ⟨r, hr, rfl⟩ := List.mem_map.mp hm
    rw [updateRow_id]
    exact (hrow r hr).imp_right fun hkeep => by rw [hkeep.1, hkeep.2]
  · obtain hdirty | hsome := h.good.complete r hr hedge
    · exact .inl hdirty
    obtain hdirty | hin := h.good.mem_of_isSome hr hsome
    · exact .inl hdirty
    refine .inr (Option.isSome_iff_exists.mpr ⟨Cache.updateRow id doc r,
        Table.get?_eq_some.mpr ⟨?_, updateRow_id id doc r⟩⟩)
    rw [Cache.index, Table.rows_ofRows hnodup]
    exact List.mem_map_of_mem (h.mem_index.mp hin)
  · refine List.pairwise_map.mpr (h.sorted.imp fun hlt => ?_)
    rw [updateRow_seq, updateRow_seq]
    exact hlt
  · dsimp only
    rw [List.length_map]
    exact h.length
  · intro m hm
    obtain ⟨r, hr, rfl⟩ := List.mem_map.mp hm
    rw [updateRow_seq]
    exact h.above r hr

/-- A local apply keeps the cache faithful if it is not overtaken and its rows are in the window. -/
theorem LocalApply.apply_faithful (h : Faithful db limit c) {a : LocalApply φ ν} (hok : a.Ok db)
    (hovertaken : a.NotOvertaken db c.version)
    (hfull : ∀ v rs, a = .rows v rs → WindowFull limit c.edge (c.mergeRows rs).rows) :
    Faithful db limit (a.apply limit c) := by
  cases a with
  | rows v rs => exact applyCommittedChatRows_faithful h hok hovertaken (hfull v rs rfl)
  | fields v id doc => exact updateCachedChatRow_faithful h hok hovertaken
  | removed v ids => exact removeCommittedChatIds_faithful h hok hovertaken
  | cleared v => exact applyCommittedChatClear_faithful hok hovertaken

end Apply

end HotChat

end Feedling
