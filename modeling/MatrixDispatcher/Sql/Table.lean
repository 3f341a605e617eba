import Mathlib.Data.List.Nodup
import Mathlib.Tactic.Common

/-!
# Tables with a primary key

The part of an SQL engine that a single-user store relies on: a table is a list of rows in
insertion order whose keys are distinct. The distinctness is a field, so every operation below
yields a table again.

* `find?` — the row with a key; `mem_iff_find?` is its specification.
* `insertNew`, `insertOrReplace`, `deleteWhere`, `update` — `INSERT` of a new key,
  `INSERT OR REPLACE`, `DELETE … WHERE` and `UPDATE … WHERE key = …`, each with the lemma that
  says what `find?` returns afterwards.
-/

/-- A table of rows `R` with primary key `key`. -/
structure Table (K R : Type) (key : R → K) where
  rows : List R
  nodup : (rows.map key).Nodup

namespace Table

variable {K R : Type} {key : R → K}

/-- The table without rows. -/
def empty : Table K R key := ⟨[], List.nodup_nil⟩

instance : Membership R (Table K R key) := ⟨fun t r => r ∈ t.rows⟩

/-- A row of the table is one of its list. -/
theorem mem_def {t : Table K R key} {r : R} : r ∈ t ↔ r ∈ t.rows := Iff.rfl

/-- Two rows of a table with the same key are the same row. -/
theorem eq_of_key_eq {t : Table K R key} {r r' : R} (h : r ∈ t) (h' : r' ∈ t)
    (hkey : key r = key r') : r = r' :=
  List.inj_on_of_nodup_map t.nodup h h' hkey

/-- The rows that satisfy `keep`: `DELETE … WHERE NOT keep`. -/
def filter (t : Table K R key) (keep : R → Bool) : Table K R key :=
  ⟨t.rows.filter keep, t.nodup.sublist (List.filter_sublist.map key)⟩

/-- A filtered table has the rows that pass. -/
@[simp] theorem mem_filter {t : Table K R key} {keep : R → Bool} {r : R} :
    r ∈ t.filter keep ↔ r ∈ t ∧ keep r = true := List.mem_filter

/-- `DELETE … WHERE p`. -/
def deleteWhere (t : Table K R key) (p : R → Bool) : Table K R key := t.filter fun r => !p r

/-- A deletion leaves the rows that its condition does not fit. -/
@[simp] theorem mem_deleteWhere {t : Table K R key} {p : R → Bool} {r : R} :
    r ∈ t.deleteWhere p ↔ r ∈ t ∧ p r = false := by
  simp [deleteWhere]

/-- The number of rows that satisfy `p`: the row count of `DELETE … WHERE p`. -/
def count (t : Table K R key) (p : R → Bool) : Nat := t.rows.countP p

/-- `DELETE` where no row qualifies. -/
theorem deleteWhere_eq_self {t : Table K R key} {p : R → Bool} (h : ∀ r ∈ t, p r = false) :
    t.deleteWhere p = t := by
  have hrows : t.rows.filter (fun r => !p r) = t.rows :=
    List.filter_eq_self.mpr fun r hr => by rw [h r hr]; rfl
  simp only [deleteWhere, filter, hrows]

/-- A condition that fits no row counts none. -/
theorem count_eq_zero {t : Table K R key} {p : R → Bool} (h : ∀ r ∈ t, p r = false) :
    t.count p = 0 :=
  List.countP_eq_zero.mpr fun r hr => Bool.eq_false_iff.mp (h r hr)

/-- A change of some rows that `g` does not see. -/
private theorem map_change {α : Type*} {rows : List R} {p : R → Bool} {f : R → R} {g : R → α}
    (hg : ∀ r, g (f r) = g r) : (rows.map fun r => if p r then f r else r).map g = rows.map g := by
  rw [List.map_map]
  refine List.map_congr_left fun r _ => ?_
  simp only [Function.comp_apply]
  split
  · exact hg r
  · rfl

/-- `UPDATE … SET` on the rows for which `p` holds; `f` may not change the key. -/
def update (t : Table K R key) (p : R → Bool) (f : R → R) (hf : ∀ r, key (f r) = key r) :
    Table K R key where
  rows := t.rows.map fun r => if p r then f r else r
  nodup := by
    rw [map_change hf]
    exact t.nodup

/-- An update is not seen by what does not look at the fields that it changes. -/
theorem map_update {α : Type*} {t : Table K R key} {p : R → Bool} {f : R → R}
    (hf : ∀ r, key (f r) = key r) {g : R → α} (hg : ∀ r, g (f r) = g r) :
    (t.update p f hf).rows.map g = t.rows.map g :=
  map_change hg

/-- The rows of an update are those before it, changed where the condition fits. -/
theorem mem_update {t : Table K R key} {p : R → Bool} {f : R → R} {hf : ∀ r, key (f r) = key r}
    {r : R} : r ∈ t.update p f hf ↔ ∃ r' ∈ t, (if p r' then f r' else r') = r := List.mem_map

variable [DecidableEq K]

/-- The row with key `k`. -/
def find? (t : Table K R key) (k : K) : Option R := t.rows.find? fun r => key r == k

/-- The row that is found is the one with the key: keys are unique. -/
theorem find?_eq_some {t : Table K R key} {k : K} {r : R} :
    t.find? k = some r ↔ r ∈ t ∧ key r = k := by
  constructor
  · intro h
    exact ⟨List.mem_of_find?_eq_some h, by simpa using List.find?_some h⟩
  · rintro ⟨hmem, rfl⟩
    rcases hfind : t.find? (key r) with _ | r'
    · have := List.find?_eq_none.mp hfind r hmem
      simp at this
    · have hkey : key r' = key r := by simpa using List.find?_some hfind
      rw [eq_of_key_eq (List.mem_of_find?_eq_some hfind) hmem hkey]

/-- The row that is found has the key. -/
theorem find?_key {t : Table K R key} {k : K} {r : R} (h : t.find? k = some r) : key r = k :=
  (find?_eq_some.mp h).2

/-- Some row has key `k`. -/
def hasKey (t : Table K R key) (k : K) : Bool := (t.find? k).isSome

/-- An empty table has no keys. -/
theorem hasKey_empty (k : K) : (empty : Table K R key).hasKey k = false := rfl

/-- The keys of a table are those of its rows. -/
theorem hasKey_iff {t : Table K R key} {k : K} : t.hasKey k = true ↔ ∃ r ∈ t, key r = k := by
  simp only [hasKey, Option.isSome_iff_exists, find?_eq_some]

/-- A key is missing when every row has another one. -/
theorem hasKey_eq_false_iff {t : Table K R key} {k : K} :
    t.hasKey k = false ↔ ∀ r ∈ t, key r ≠ k := by
  rw [← Bool.not_eq_true, hasKey_iff]
  simp

/-- After a deletion a row is found unless the condition fits it. -/
theorem find?_deleteWhere {t : Table K R key} {p : R → Bool} {k : K} :
    (t.deleteWhere p).find? k = (t.find? k).filter fun r => !p r := by
  ext r
  simp only [find?_eq_some, mem_deleteWhere, Option.filter_eq_some_iff, Bool.not_eq_true']
  exact ⟨fun ⟨⟨hmem, hp⟩, hk⟩ => ⟨⟨hmem, hk⟩, hp⟩, fun ⟨⟨hmem, hk⟩, hp⟩ => ⟨⟨hmem, hp⟩, hk⟩⟩

/-- After an update the changed row is found under the old key. -/
theorem find?_update {t : Table K R key} {p : R → Bool} {f : R → R}
    {hf : ∀ r, key (f r) = key r} {k : K} :
    (t.update p f hf).find? k = (t.find? k).map fun r => if p r then f r else r := by
  ext r
  simp only [find?_eq_some, mem_update, Option.map_eq_some_iff]
  constructor
  · rintro ⟨⟨r', hmem, rfl⟩, hk⟩
    refine ⟨r', ⟨hmem, ?_⟩, rfl⟩
    rw [← hk]
    split
    · exact (hf r').symm
    · rfl
  · rintro ⟨r', ⟨hmem, rfl⟩, rfl⟩
    refine ⟨⟨r', hmem, rfl⟩, ?_⟩
    split
    · exact hf r'
    · rfl

/-- An update leaves the keys as they are. -/
theorem hasKey_update {t : Table K R key} {p : R → Bool} {f : R → R}
    (hf : ∀ r, key (f r) = key r) (k : K) : (t.update p f hf).hasKey k = t.hasKey k := by
  rw [hasKey, find?_update, Option.isSome_map, hasKey]

/-- `INSERT` of a row whose key is new. -/
def insertNew (t : Table K R key) (r : R) (h : t.hasKey (key r) = false) : Table K R key where
  rows := t.rows ++ [r]
  nodup := by
    rw [List.map_append, List.nodup_append]
    refine ⟨t.nodup, by simp, ?_⟩
    simp only [List.mem_map, List.map_cons, List.map_nil, List.mem_singleton]
    rintro _ ⟨r', hmem, rfl⟩ _ rfl
    exact hasKey_eq_false_iff.mp h r' hmem

/-- An insertion adds the new row. -/
@[simp] theorem mem_insertNew {t : Table K R key} {r r' : R} {h : t.hasKey (key r) = false} :
    r' ∈ t.insertNew r h ↔ r' ∈ t ∨ r' = r := by
  simp [mem_def, insertNew]

/-- The new row is found under its key, and the others as before. -/
theorem find?_insertNew {t : Table K R key} {r : R} {h : t.hasKey (key r) = false} {k : K} :
    (t.insertNew r h).find? k = if key r = k then some r else t.find? k := by
  have hnone := hasKey_eq_false_iff.mp h
  ext r'
  split
  · next hk =>
    subst hk
    simp only [find?_eq_some, mem_insertNew, Option.some.injEq]
    constructor
    · rintro ⟨hmem | rfl, hkey⟩
      · exact absurd hkey (hnone r' hmem)
      · rfl
    · rintro rfl
      exact ⟨.inr rfl, rfl⟩
  · next hk =>
    simp only [find?_eq_some, mem_insertNew]
    constructor
    · rintro ⟨hmem | rfl, hkey⟩
      · exact ⟨hmem, hkey⟩
      · exact absurd hkey hk
    · rintro ⟨hmem, hkey⟩
      exact ⟨.inl hmem, hkey⟩

/-- A key whose rows were deleted is missing. -/
private theorem hasKey_deleteWhere_key (t : Table K R key) (k : K) :
    (t.deleteWhere fun r => key r == k).hasKey k = false := by
  rw [hasKey_eq_false_iff]
  intro r hr
  simpa using (mem_deleteWhere.mp hr).2

/-- `INSERT OR REPLACE`: a row with the same key goes away and the new row comes last. -/
def insertOrReplace (t : Table K R key) (r : R) : Table K R key :=
  (t.deleteWhere fun r' => key r' == key r).insertNew r (t.hasKey_deleteWhere_key (key r))

/-- A replacement takes the old row of the key away and adds the new one. -/
theorem mem_insertOrReplace {t : Table K R key} {r r' : R} :
    r' ∈ t.insertOrReplace r ↔ (r' ∈ t ∧ key r' ≠ key r) ∨ r' = r := by
  simp [insertOrReplace]

/-- A row with a new key is added. -/
theorem rows_insertOrReplace {t : Table K R key} {r : R} (h : t.hasKey (key r) = false) :
    (t.insertOrReplace r).rows = t.rows ++ [r] := by
  have hkeep : t.rows.filter (fun r' => !(key r' == key r)) = t.rows := by
    refine List.filter_eq_self.mpr fun r' hr' => ?_
    simpa using hasKey_eq_false_iff.mp h r' hr'
  change t.rows.filter (fun r' => !(key r' == key r)) ++ [r] = _
  rw [hkeep]

/-- The row that replaces is found under its key, and the others as before. -/
theorem find?_insertOrReplace {t : Table K R key} {r : R} {k : K} :
    (t.insertOrReplace r).find? k = if key r = k then some r else t.find? k := by
  rw [insertOrReplace, find?_insertNew, find?_deleteWhere]
  split
  · rfl
  · next hk =>
    rcases hfind : t.find? k with _ | r'
    · rfl
    · have hne : key r' ≠ key r := by
        rw [find?_key hfind]
        exact fun h => hk h.symm
      simp [hne]

end Table
