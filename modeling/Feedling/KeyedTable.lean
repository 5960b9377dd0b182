import Mathlib.Data.List.Induction
import Mathlib.Data.List.Nodup
import Mathlib.Data.List.Pairwise

/-!
# Tables of rows under a primary key

A table is a list of rows whose keys are distinct. Three shapes are used. `Table` has a key
of any type and an insert that leaves the table alone when the key is taken, as
`INSERT ... ON CONFLICT DO NOTHING` does. `Serial` numbers its rows from a sequence, keeps
them in the order of those numbers and never gives a number twice; `Indexed` is a `Serial`
whose rows are also distinct in a second column.

Every operation comes with the equation for the row found under a key after it, so that a
proof about a sequence of statements follows one key and never opens the list.
-/

namespace KeyedTable

variable {α κ : Type} [DecidableEq κ]

theorem find?_key_eq_some {key : α → κ} {l : List α} (h : (l.map key).Nodup) {k : κ} {r : α} :
    l.find? (fun x => decide (key x = k)) = some r ↔ r ∈ l ∧ key r = k := by
  constructor
  · intro hf
    exact ⟨List.mem_of_find?_eq_some hf, by simpa using List.find?_some hf⟩
  · rintro ⟨hm, rfl⟩
    cases hf : l.find? (fun x => decide (key x = key r)) with
    | none => simpa using List.find?_eq_none.mp hf r hm
    | some x =>
      have hx : x ∈ l := List.mem_of_find?_eq_some hf
      have hk : key x = key r := by simpa using List.find?_some hf
      rw [List.inj_on_of_nodup_map h hx hm hk]

theorem map_key_modify {κ' : Type} {key : α → κ'} {f : α → α} (hf : ∀ r, key (f r) = key r)
    (p : α → Bool) (l : List α) :
    (l.map fun r => if p r then f r else r).map key = l.map key := by
  rw [List.map_map]
  refine List.map_congr_left fun r _ => ?_
  by_cases hp : p r <;> simp [hp, hf]

omit [DecidableEq κ] in
theorem countP_modify_le {key : α → κ} {k : κ} {p : α → Bool} (hp : ∀ r, p r = true → key r = k)
    (f : α → α) (q : α → Bool) {l : List α} (h : (l.map key).Nodup) :
    (l.map fun r => if p r then f r else r).countP q ≤ l.countP q + 1 := by
  induction l with
  | nil => simp
  | cons x l ih =>
    rw [List.map_cons, List.nodup_cons] at h
    by_cases hx : p x = true
    · have hrest : (l.map fun r => if p r then f r else r) = l := by
        conv_rhs => rw [← List.map_id l]
        refine List.map_congr_left fun r hr => ?_
        rw [if_neg]
        · rfl
        · intro hpr
          exact h.1 (List.mem_map.mpr ⟨r, hr, (hp r hpr).trans (hp x hx).symm⟩)
      rw [List.map_cons, hrest, List.countP_cons, List.countP_cons]
      split <;> split <;> omega
    · have hle := ih h.2
      rw [List.map_cons, if_neg hx, List.countP_cons, List.countP_cons]
      omega

/-- Rows with distinct keys. -/
structure Table {α κ : Type} (key : α → κ) where
  rows : List α
  nodup : (rows.map key).Nodup

namespace Table

variable {key : α → κ}

def empty : Table key := ⟨[], by simp⟩

def get? (t : Table key) (k : κ) : Option α := t.rows.find? fun r => decide (key r = k)

/-- `UPDATE ... SET f WHERE p` for an assignment that leaves the key alone. -/
def modify (t : Table key) (p : α → Bool) (f : α → α) (hf : ∀ r, key (f r) = key r) : Table key :=
  ⟨t.rows.map fun r => if p r then f r else r, by rw [map_key_modify hf]; exact t.nodup⟩

/-- `DELETE ... WHERE p`. -/
def erase (t : Table key) (p : α → Bool) : Table key :=
  ⟨t.rows.filter fun r => !p r, t.nodup.sublist (List.filter_sublist.map key)⟩

/-- `INSERT ... ON CONFLICT DO NOTHING`. -/
def insert (t : Table key) (r : α) : Table key :=
  if h : key r ∈ t.rows.map key then t
  else ⟨t.rows ++ [r], by
    have hne : ∀ a ∈ t.rows, key a ≠ key r := fun a ha he => h (List.mem_map.mpr ⟨a, ha, he⟩)
    simpa [List.nodup_append, t.nodup] using hne⟩

variable {t : Table key} {k : κ} {r : α}

theorem get?_eq_some : t.get? k = some r ↔ r ∈ t.rows ∧ key r = k :=
  find?_key_eq_some t.nodup

theorem get?_eq_none : t.get? k = none ↔ ∀ r ∈ t.rows, key r ≠ k := by
  simp [get?]

theorem mem_rows : r ∈ t.rows ↔ t.get? (key r) = some r := by
  simp [get?_eq_some]

theorem key_of_get? (h : t.get? k = some r) : key r = k :=
  (get?_eq_some.mp h).2

@[simp] theorem get?_empty (k : κ) : (empty : Table key).get? k = none := rfl

@[simp] theorem get?_modify (t : Table key) (p : α → Bool) (f : α → α) (hf : ∀ r, key (f r) = key r)
    (k : κ) : (t.modify p f hf).get? k = (t.get? k).map fun r => if p r then f r else r := by
  cases h : t.get? k with
  | none =>
    rw [get?_eq_none] at h
    simp only [Option.map_none, get?_eq_none, modify, List.mem_map]
    rintro _ ⟨r, hr, rfl⟩
    have := h r hr
    by_cases hp : p r <;> simpa [hp, hf] using this
  | some r =>
    obtain ⟨hr, hk⟩ := get?_eq_some.mp h
    rw [Option.map_some, get?_eq_some]
    refine ⟨List.mem_map.mpr ⟨r, hr, rfl⟩, ?_⟩
    by_cases hp : p r <;> simp [hp, hf, hk]

@[simp] theorem get?_erase (t : Table key) (p : α → Bool) (k : κ) :
    (t.erase p).get? k = (t.get? k).filter fun r => !p r := by
  cases h : t.get? k with
  | none =>
    rw [get?_eq_none] at h
    simp only [Option.filter_none, get?_eq_none, erase, List.mem_filter]
    exact fun r hr => h r hr.1
  | some r =>
    obtain ⟨hr, hk⟩ := get?_eq_some.mp h
    by_cases hp : p r
    · simp only [Option.filter, hp, Bool.not_true, Bool.false_eq_true, ↓reduceIte, get?_eq_none,
        erase, List.mem_filter]
      rintro x ⟨hx, hpx⟩ hkx
      rw [List.inj_on_of_nodup_map t.nodup hx hr (hkx.trans hk.symm), hp] at hpx
      cases hpx
    · simp only [Option.filter, hp, Bool.not_false, ↓reduceIte, get?_eq_some]
      exact ⟨List.mem_filter.mpr ⟨hr, by simp [hp]⟩, hk⟩

theorem get?_insert (t : Table key) (r : α) (k : κ) :
    (t.insert r).get? k = if t.get? k = none ∧ key r = k then some r else t.get? k := by
  unfold insert
  split
  · next h =>
    split
    · next hc =>
      obtain ⟨hn, rfl⟩ := hc
      obtain ⟨x, hx, hk⟩ := List.mem_map.mp h
      exact absurd hk (get?_eq_none.mp hn x hx)
    · rfl
  · next h =>
    by_cases hk : key r = k
    · have hn : t.get? k = none := by
        rw [get?_eq_none]
        intro x hx he
        exact h (List.mem_map.mpr ⟨x, hx, he.trans hk.symm⟩)
      simp only [hn, hk, and_self, ↓reduceIte, get?_eq_some]
      simp
    · simp [get?, List.find?_append, hk]

theorem get?_insert_of_none (h : t.get? (key r) = none) :
    (t.insert r).get? (key r) = some r := by
  simp [get?_insert, h]

theorem rows_insert_of_none (h : t.get? (key r) = none) :
    (t.insert r).rows = t.rows ++ [r] := by
  have hnew : key r ∉ t.rows.map key := by
    intro hmem
    obtain ⟨x, hx, hkey⟩ := List.mem_map.mp hmem
    exact get?_eq_none.mp h x hx hkey
  simp only [insert, dif_neg hnew]

theorem mem_insert_of_mem {r x : α} (h : x ∈ t.rows) : x ∈ (t.insert r).rows := by
  unfold insert
  split
  · exact h
  · simp [h]

theorem exists_mem_insert : ∃ x ∈ (t.insert r).rows, key x = key r := by
  unfold insert
  split
  · next h =>
    obtain ⟨x, hx, hk⟩ := List.mem_map.mp h
    exact ⟨x, hx, hk⟩
  · exact ⟨r, by simp, rfl⟩

theorem mem_insert {r x : α} (h : x ∈ (t.insert r).rows) : x ∈ t.rows ∨ x = r := by
  unfold insert at h
  split at h
  · exact .inl h
  · simpa using h

/-- `INSERT ... ON CONFLICT DO UPDATE`: the new row takes the place of the one with its key. -/
def put (t : Table key) (r : α) : Table key := (t.erase fun x => decide (key x = key r)).insert r

theorem get?_put (t : Table key) (r : α) (k : κ) :
    (t.put r).get? k = if key r = k then some r else t.get? k := by
  rw [put, get?_insert, get?_erase]
  by_cases hk : key r = k
  · have hnone : ((t.get? k).filter fun x => !decide (key x = key r)) = none := by
      cases h : t.get? k with
      | none => rfl
      | some x => simp [Option.filter, key_of_get? h, hk]
    rw [if_pos ⟨hnone, hk⟩, if_pos hk]
  · rw [if_neg fun h => hk h.2, if_neg hk]
    cases h : t.get? k with
    | none => rfl
    | some x =>
      have hne : key x ≠ key r := fun hx => hk (hx.symm.trans (key_of_get? h))
      simp [Option.filter, hne]

/-- A list of rows as a table, where the last row with a key counts. -/
def ofRows (l : List α) : Table key := l.foldl put empty

theorem get?_ofRows_concat (l : List α) (r : α) (k : κ) :
    (ofRows (l ++ [r]) : Table key).get? k = if key r = k then some r
    else (ofRows l : Table key).get? k := by
  rw [ofRows, List.foldl_append]
  exact get?_put _ r k

theorem rows_ofRows {l : List α} (h : (l.map key).Nodup) : (ofRows l : Table key).rows = l := by
  induction l using List.reverseRecOn with
  | nil => rfl
  | append_singleton l r ih =>
    rw [List.map_append, List.nodup_append] at h
    have hne : ∀ x ∈ l, key x ≠ key r :=
      fun x hx => h.2.2 (key x) (List.mem_map_of_mem hx) (key r) (by simp)
    have hput : (ofRows (l ++ [r]) : Table key) = (ofRows l).put r := by
      rw [ofRows, List.foldl_append]
      rfl
    have hrows : ((ofRows l : Table key).erase fun x => decide (key x = key r)).rows = l := by
      have hkeep : l.filter (fun x => !decide (key x = key r)) = l := by
        rw [List.filter_eq_self]
        intro x hx
        simpa using hne x hx
      exact (congrArg (List.filter _) (ih h.1)).trans hkeep
    rw [hput, put, rows_insert_of_none, hrows]
    rw [get?_eq_none, hrows]
    exact hne

theorem get?_ofRows {l : List α} (h : (l.map key).Nodup) (k : κ) :
    (ofRows l : Table key).get? k = l.find? fun r => decide (key r = k) := by
  rw [get?, rows_ofRows h]

end Table

/-- The last hit of a scan in the order of the numbers has the greatest number. -/
theorem getLast?_filter_eq_some {key : α → Nat} {l : List α}
    (h : l.Pairwise fun a b => key a < key b) {p : α → Bool} {r : α} :
    (l.filter p).getLast? = some r ↔ r ∈ l ∧ p r = true ∧ ∀ x ∈ l, p x = true → key x ≤ key r := by
  have hsorted := h.filter p
  rw [List.getLast?_eq_some_iff]
  constructor
  · rintro ⟨front, hfront⟩
    have hmem : r ∈ l.filter p := by rw [hfront]; simp
    obtain ⟨hr, hp⟩ := List.mem_filter.mp hmem
    refine ⟨hr, hp, fun x hx hpx => ?_⟩
    have hxf : x ∈ front ++ [r] := hfront ▸ List.mem_filter.mpr ⟨hx, hpx⟩
    rw [hfront, List.pairwise_append] at hsorted
    obtain hx' | hx' := List.mem_append.mp hxf
    · exact Nat.le_of_lt (hsorted.2.2 x hx' r (by simp))
    · exact Nat.le_of_eq (congrArg key (List.mem_singleton.mp hx'))
  · rintro ⟨hr, hp, hmax⟩
    obtain ⟨front, back, hsplit⟩ := List.append_of_mem (List.mem_filter.mpr ⟨hr, hp⟩)
    refine ⟨front, ?_⟩
    -- a row behind `r` would have a greater number
    cases back with
    | nil => exact hsplit
    | cons x back =>
      have hx : x ∈ l.filter p := by rw [hsplit]; simp
      obtain ⟨hxl, hxp⟩ := List.mem_filter.mp hx
      rw [hsplit, List.pairwise_append, List.pairwise_cons] at hsorted
      have hlt := hsorted.2.1.1 x (by simp)
      exact absurd (hmax x hxl hxp) (Nat.not_le_of_lt hlt)

theorem exists_getLast?_filter {key : α → Nat} {l : List α}
    (h : l.Pairwise fun a b => key a < key b) {p : α → Bool} {x : α} (hx : x ∈ l)
    (hp : p x = true) :
    ∃ r, (l.filter p).getLast? = some r ∧ key x ≤ key r := by
  cases hlast : (l.filter p).getLast? with
  | none =>
    rw [List.getLast?_eq_none_iff, List.filter_eq_nil_iff] at hlast
    exact absurd hp (hlast x hx)
  | some r => exact ⟨r, rfl, ((getLast?_filter_eq_some h).mp hlast).2.2 x hx hp⟩

/-- Rows numbered by a sequence, in the order of their numbers. -/
structure Serial {α : Type} (key : α → Nat) where
  rows : List α
  next : Nat
  sorted : rows.Pairwise fun a b => key a < key b
  bound : ∀ r ∈ rows, key r < next

namespace Serial

variable {key : α → Nat}

/-- No row yet; the first number given out is `start`. -/
def empty (start : Nat) : Serial key := ⟨[], start, by simp, by simp⟩

def toTable (t : Serial key) : Table key :=
  ⟨t.rows, List.pairwise_map.mpr (t.sorted.imp fun h => Nat.ne_of_lt h)⟩

def get? (t : Serial key) (k : Nat) : Option α := t.toTable.get? k

def modify (t : Serial key) (p : α → Bool) (f : α → α) (hf : ∀ r, key (f r) = key r) :
    Serial key where
  rows := t.rows.map fun r => if p r then f r else r
  next := t.next
  sorted := by
    rw [List.pairwise_map]
    refine t.sorted.imp fun {a b} h => ?_
    by_cases ha : p a <;> by_cases hb : p b <;> simpa [ha, hb, hf] using h
  bound := by
    intro r hr
    obtain ⟨x, hx, rfl⟩ := List.mem_map.mp hr
    by_cases hp : p x <;> simpa [hp, hf] using t.bound x hx

def erase (t : Serial key) (p : α → Bool) : Serial key where
  rows := t.rows.filter fun r => !p r
  next := t.next
  sorted := t.sorted.filter _
  bound := fun r hr => t.bound r (List.mem_of_mem_filter hr)

/-- `INSERT ... RETURNING id`: the new row has the number `next`. -/
def insert (t : Serial key) (mk : Nat → α) (hk : ∀ n, key (mk n) = n) : Serial key where
  rows := t.rows ++ [mk t.next]
  next := t.next + 1
  sorted := by
    refine List.pairwise_append.mpr ⟨t.sorted, by simp, ?_⟩
    intro a ha b hb
    rw [List.mem_singleton.mp hb, hk]
    exact t.bound a ha
  bound := by
    intro r hr
    rcases List.mem_append.mp hr with h | h
    · exact Nat.lt_succ_of_lt (t.bound r h)
    · rw [List.mem_singleton.mp h, hk]; exact Nat.lt_succ_self _

variable {t : Serial key} {k : Nat} {r : α}

theorem get?_eq_some : t.get? k = some r ↔ r ∈ t.rows ∧ key r = k :=
  Table.get?_eq_some (t := t.toTable)

theorem get?_eq_none : t.get? k = none ↔ ∀ r ∈ t.rows, key r ≠ k :=
  Table.get?_eq_none (t := t.toTable)

theorem mem_rows : r ∈ t.rows ↔ t.get? (key r) = some r :=
  Table.mem_rows (t := t.toTable)

theorem key_of_get? (h : t.get? k = some r) : key r = k :=
  (get?_eq_some.mp h).2

theorem eq_of_key_eq {r x : α} (hr : r ∈ t.rows) (hx : x ∈ t.rows) (h : key r = key x) : r = x := by
  have hget := mem_rows.mp hr
  rw [h, mem_rows.mp hx] at hget
  exact (Option.some.inj hget).symm

theorem ext_rows {t t' : Serial key} (hrows : t.rows = t'.rows) (hnext : t.next = t'.next) :
    t = t' := by
  cases t
  cases t'
  cases hrows
  cases hnext
  rfl

theorem nodup (t : Serial key) : t.rows.Nodup := by
  refine t.sorted.imp fun {a b} hlt => ?_
  rintro rfl
  exact Nat.lt_irrefl _ hlt

theorem nodup_keys (t : Serial key) {l : List α} (hl : l.Nodup) (hmem : ∀ r ∈ l, r ∈ t.rows) :
    (l.map key).Nodup :=
  List.Nodup.map_on (fun _ hr _ hx h => eq_of_key_eq (hmem _ hr) (hmem _ hx) h) hl

theorem eq_of_map_key_eq {l l' : List α} (hl : ∀ r ∈ l, r ∈ t.rows) (hl' : ∀ r ∈ l', r ∈ t.rows)
    (h : l.map key = l'.map key) : l = l' := by
  induction l generalizing l' with
  | nil => exact (List.map_eq_nil_iff.mp h.symm).symm
  | cons r l ih =>
    cases l' with
    | nil => cases h
    | cons x l' =>
      simp only [List.map_cons, List.cons.injEq] at h
      rw [eq_of_key_eq (hl r (by simp)) (hl' x (by simp)) h.1]
      rw [ih (fun y hy => hl y (by simp [hy])) (fun y hy => hl' y (by simp [hy])) h.2]

theorem lt_next (h : t.get? k = some r) : k < t.next := by
  obtain ⟨hm, rfl⟩ := get?_eq_some.mp h
  exact t.bound r hm

theorem get?_of_next_le (h : t.next ≤ k) : t.get? k = none := by
  cases hg : t.get? k with
  | none => rfl
  | some r => exact absurd (lt_next hg) (by omega)

theorem modify_eq_self {p : α → Bool} {f : α → α} {hf : ∀ r, key (f r) = key r}
    (h : ∀ r ∈ t.rows, p r = false) : t.modify p f hf = t := by
  have hrows : (t.rows.map fun r => if p r then f r else r) = t.rows := by
    refine (List.map_congr_left fun r hr => ?_).trans (List.map_id _)
    simp [h r hr]
  cases t
  simpa [modify] using hrows

@[simp] theorem get?_modify (t : Serial key) (p : α → Bool) (f : α → α)
    (hf : ∀ r, key (f r) = key r) (k : Nat) :
    (t.modify p f hf).get? k = (t.get? k).map fun r => if p r then f r else r :=
  Table.get?_modify t.toTable p f hf k

theorem get?_insert (t : Serial key) (mk : Nat → α) (hk : ∀ n, key (mk n) = n) (k : Nat) :
    (t.insert mk hk).get? k = if k = t.next then some (mk k) else t.get? k := by
  by_cases h : k = t.next
  · subst h
    simp only [↓reduceIte, get?_eq_some, hk, and_true]
    simp [insert]
  · have hne : ¬ t.next = k := fun he => h he.symm
    simp [get?, toTable, Table.get?, insert, List.find?_append, hk, h, hne]

theorem get?_insert_next (t : Serial key) (mk : Nat → α) (hk : ∀ n, key (mk n) = n) :
    (t.insert mk hk).get? t.next = some (mk t.next) := by
  rw [get?_insert, if_pos rfl]

theorem get?_of_find? {p : α → Bool} (h : t.rows.find? p = some r) :
    t.get? (key r) = some r ∧ p r :=
  ⟨mem_rows.mp (List.mem_of_find?_eq_some h), List.find?_some h⟩

theorem any_eq_true {p : α → Bool} :
    t.rows.any p = true ↔ ∃ k r, t.get? k = some r ∧ p r = true := by
  rw [List.any_eq_true]
  constructor
  · rintro ⟨r, hr, hp⟩
    exact ⟨key r, r, mem_rows.mp hr, hp⟩
  · rintro ⟨k, r, hr, hp⟩
    exact ⟨r, (get?_eq_some.mp hr).1, hp⟩

end Serial

/-- Numbered rows with a second unique column. -/
structure Indexed {α ι : Type} (key : α → Nat) (id : α → ι) extends Serial key where
  unique : (rows.map id).Nodup

namespace Indexed

variable {ι : Type} {key : α → Nat} {id : α → ι}

def empty (start : Nat) : Indexed key id := ⟨Serial.empty start, by simp [Serial.empty]⟩

def modify (t : Indexed key id) (p : α → Bool) (f : α → α) (hf : ∀ r, key (f r) = key r)
    (hid : ∀ r, id (f r) = id r) : Indexed key id :=
  ⟨t.toSerial.modify p f hf, by
    have h : (t.toSerial.modify p f hf).rows.map id = t.rows.map id := map_key_modify hid p t.rows
    rw [h]; exact t.unique⟩

def erase (t : Indexed key id) (p : α → Bool) : Indexed key id :=
  ⟨t.toSerial.erase p, t.unique.sublist (List.filter_sublist.map id)⟩

variable {t : Indexed key id}

theorem mem_modify {p : α → Bool} {f : α → α} {hf : ∀ r, key (f r) = key r}
    {hid : ∀ r, id (f r) = id r} {x : α} :
    x ∈ (t.modify p f hf hid).rows ↔ ∃ r ∈ t.rows, (if p r then f r else r) = x :=
  List.mem_map

variable [DecidableEq ι]

def find? (t : Indexed key id) (i : ι) : Option α := t.rows.find? fun r => id r == i

/-- `INSERT ... ON CONFLICT (id) DO NOTHING`; `i` is the value the new row has there. -/
def insert (t : Indexed key id) (i : ι) (mk : Nat → α) (hk : ∀ n, key (mk n) = n)
    (hid : ∀ n, id (mk n) = i) : Indexed key id :=
  if h : i ∈ t.rows.map id then t
  else ⟨t.toSerial.insert mk hk, by
    have hne : ∀ a ∈ t.rows, id a ≠ i := fun a ha he => h (List.mem_map.mpr ⟨a, ha, he⟩)
    simpa [Serial.insert, List.nodup_append, t.unique, hid] using hne⟩

variable {i : ι}

theorem find?_eq_some {r : α} :
    t.find? i = some r ↔ r ∈ t.rows ∧ id r = i :=
  find?_key_eq_some t.unique

theorem find?_eq_none : t.find? i = none ↔ ∀ r ∈ t.rows, id r ≠ i := by
  simp [find?]

theorem mem_rows {r : α} : r ∈ t.rows ↔ t.find? (id r) = some r := by
  simp [find?_eq_some]

@[simp] theorem find?_modify (t : Indexed key id) (p : α → Bool) (f : α → α)
    (hf : ∀ r, key (f r) = key r) (hid : ∀ r, id (f r) = id r) (i : ι) :
    (t.modify p f hf hid).find? i = (t.find? i).map fun r => if p r then f r else r :=
  Table.get?_modify ⟨t.rows, t.unique⟩ p f hid i

theorem find?_insert (t : Indexed key id) (i : ι) (mk : Nat → α) (hk : ∀ n, key (mk n) = n)
    (hid : ∀ n, id (mk n) = i) (k : ι) :
    (t.insert i mk hk hid).find? k = if t.find? k = none ∧ i = k then some (mk t.next)
    else t.find? k := by
  unfold insert
  split
  · next h =>
    split
    · next hc =>
      obtain ⟨hn, rfl⟩ := hc
      obtain ⟨x, hx, hx'⟩ := List.mem_map.mp h
      exact absurd hx' (find?_eq_none.mp hn x hx)
    · rfl
  · next h =>
    by_cases hk : i = k
    · subst hk
      have hn : t.find? i = none :=
        find?_eq_none.mpr fun x hx he => h (List.mem_map.mpr ⟨x, hx, he⟩)
      rw [if_pos ⟨hn, rfl⟩, find?_eq_some]
      exact ⟨by simp [Serial.insert], hid _⟩
    · rw [if_neg fun hc => hk hc.2]
      simp [find?, Serial.insert, List.find?_append, hid, hk]

theorem insert_of_none {mk : Nat → α} {hk : ∀ n, key (mk n) = n}
    {hid : ∀ n, id (mk n) = i} (h : t.find? i = none) :
    (t.insert i mk hk hid).toSerial = t.toSerial.insert mk hk := by
  have hnew : i ∉ t.rows.map id := by
    intro hmem
    obtain ⟨x, hx, hid⟩ := List.mem_map.mp hmem
    exact find?_eq_none.mp h x hx hid
  simp only [insert, dif_neg hnew]

theorem mem_insert {mk : Nat → α} {hk : ∀ n, key (mk n) = n}
    {hid : ∀ n, id (mk n) = i} {x : α} (h : x ∈ (t.insert i mk hk hid).rows) :
    x ∈ t.rows ∨ x = mk t.next ∧ t.find? i = none := by
  unfold insert at h
  split at h
  · exact .inl h
  · next hn =>
    obtain h | h := List.mem_append.mp h
    · exact .inl h
    · refine .inr ⟨List.mem_singleton.mp h, find?_eq_none.mpr fun r hr he => hn ?_⟩
      exact List.mem_map.mpr ⟨r, hr, he⟩

end Indexed

end KeyedTable
