import BoundSql.Build.Rows
import Mathlib.Data.List.Nodup
import Mathlib.Data.List.Perm.Basic

/-!
# `BoundSql.Proofs.Records` — records as maps from columns to values

The entries of a record stand in an order, but what a record says does not depend on it as long as no column
occurs twice, and no column ever does. Taking a value out moves another entry to the free place; the order
is lost and what the record says of the other columns is kept.

## Contents
- **`Record.Reachable`** records are those that a caller can make. Their columns are distinct
  (`Record.Reachable.nodup_columns`).
- **`Record.get?_eq_some_iff`** and **`Record.get?_congr`** read a value without regard to the order.
- **`Record.perm_of_take?`** says what taking a value out leaves.
-/

namespace BoundSql

namespace Record

variable {r r' : Record} {column other : String} {v : Operand}

/-! ## Records that a caller can make -/

/-- A record that is made by giving values to columns, one by one. -/
inductive Reachable : Record → Prop where
  | empty : Reachable .empty
  | set {r : Record} (h : Reachable r) (column : String) (v : Operand) : Reachable (r.set column v)

/-- Giving a value to a column does not make a column occur twice. -/
theorem nodup_columns_set (h : r.columns.Nodup) (column : String) (v : Operand) :
    (r.set column v).columns.Nodup := by
  rw [columns_set]
  by_cases hmem : column ∈ r.columns
  · rwa [if_pos hmem]
  · rw [if_neg hmem]
    exact List.nodup_append.mpr ⟨h, List.nodup_singleton column, by
      intro c hc d hd hcd
      rw [List.mem_singleton.mp hd] at hcd
      exact hmem (hcd ▸ hc)⟩

theorem Reachable.nodup_columns (h : r.Reachable) : r.columns.Nodup := by
  induction h with
  | empty => exact List.nodup_nil
  | set _ column v ih => exact nodup_columns_set ih column v

/-- A record made from a list of settings is made one setting after the other. -/
theorem reachable_ofList (settings : List (String × Operand)) : (ofList settings).Reachable := by
  suffices h : ∀ r : Record, r.Reachable →
      (settings.foldl (fun r s => r.set s.1 s.2) r).Reachable from h empty .empty
  induction settings with
  | nil => exact fun r hr => hr
  | cons s rest ih => exact fun r hr => ih _ (hr.set s.1 s.2)

/-! ## Values of columns -/

theorem get?_eq_none_iff : r.get? column = none ↔ column ∉ r.columns := by
  unfold get? columns
  rw [List.lookup_eq_none_iff, List.mem_map]
  constructor
  · rintro h ⟨e, he, rfl⟩
    simpa using h e he
  · intro h e he
    rw [bne_iff_ne]
    rintro rfl
    exact h ⟨e, he, rfl⟩

/-- A column that occurs once has the value it occurs with. -/
theorem get?_eq_some_iff (hn : r.columns.Nodup) : r.get? column = some v ↔ (column, v) ∈ r.entries := by
  unfold get?
  rw [List.lookup_eq_some_iff]
  constructor
  · rintro ⟨front, back, heq, -⟩
    rw [heq]
    exact List.mem_append_right front List.mem_cons_self
  · intro hmem
    obtain ⟨front, back, heq⟩ := List.append_of_mem hmem
    refine ⟨front, back, heq, fun e he => ?_⟩
    -- An entry in front with the same column would be a second one.
    rw [columns, heq, List.map_append, List.map_cons, List.nodup_append] at hn
    rw [bne_iff_ne]
    exact fun hc => hn.2.2 e.1 (List.mem_map_of_mem he) column List.mem_cons_self hc.symm

theorem perm_columns (h : r.entries.Perm r'.entries) : r.columns.Perm r'.columns :=
  h.map _

/-- The order of the entries does not matter for the values. -/
theorem get?_congr (h : r.entries.Perm r'.entries) (hn : r.columns.Nodup) (column : String) :
    r.get? column = r'.get? column := by
  have hn' : r'.columns.Nodup := (perm_columns h).nodup_iff.mp hn
  refine Option.ext fun v => ?_
  rw [get?_eq_some_iff hn, get?_eq_some_iff hn', h.mem_iff]

/-! ## Taking a value out -/

/-- Up to order, removing by a swap leaves all other entries. -/
theorem perm_swapRemove {entries : List (String × Operand)} {i : Nat} (h : i < entries.length) :
    (swapRemove entries i).Perm (entries.eraseIdx i) := by
  rcases List.eq_nil_or_concat entries with rfl | ⟨init, e, rfl⟩
  · exact absurd h (Nat.not_lt_zero i)
  rw [List.concat_eq_append] at h ⊢
  have hlast : (init ++ [e]).getLast? = some e := List.getLast?_concat
  unfold swapRemove
  rw [hlast]
  by_cases hi : i < init.length
  · -- The last entry takes the place of an earlier one.
    have hset : ((init ++ [e]).set i e).dropLast = init.set i e := by
      rw [List.set_append_left i e hi, List.dropLast_concat]
    have herase : (init ++ [e]).eraseIdx i = init.eraseIdx i ++ [e] :=
      List.eraseIdx_append_of_lt_length hi [e]
    show (((init ++ [e]).set i e).dropLast).Perm _
    rw [hset, herase]
    exact (List.set_perm_cons_eraseIdx hi e).trans (List.perm_append_singleton e _).symm
  · -- The last entry itself is removed.
    have hlength : i = init.length := by
      rw [List.length_append, List.length_singleton] at h
      omega
    subst hlength
    have hset : ((init ++ [e]).set init.length e).dropLast = init := by simp
    show (((init ++ [e]).set init.length e).dropLast).Perm _
    rw [hset, List.eraseIdx_append_of_length_le (Nat.le_refl _)]
    simp

/-- What is taken out and what is left make up the record. -/
theorem perm_of_take? (h : r.take? column = some (v, r')) : r.entries.Perm ((column, v) :: r'.entries) := by
  obtain ⟨w, hw, heq⟩ := Option.map_eq_some_iff.mp h
  cases heq
  obtain ⟨front, back, hentries, hfront⟩ := List.lookup_eq_some_iff.mp hw
  -- The value that is looked up and the entry that is removed are both the first ones of the column.
  have hindex : r.entries.findIdx (·.1 == column) = front.length := by
    rw [hentries, List.findIdx_append]
    have hnone : ∀ e ∈ front, (e.1 == column) = false := by
      intro e he
      have := hfront e he
      rw [bne_iff_ne] at this
      exact beq_eq_false_iff_ne.mpr this.symm
    rw [List.findIdx_eq_length.mpr hnone, if_neg (Nat.lt_irrefl _), List.findIdx_cons]
    simp
  have hlt : front.length < r.entries.length := by
    rw [hentries, List.length_append, List.length_cons]
    omega
  have hrest : r.entries.eraseIdx front.length = front ++ back := by
    rw [hentries, List.eraseIdx_append_of_length_le (Nat.le_refl _)]
    simp
  have hperm := perm_swapRemove hlt
  rw [hrest] at hperm
  rw [hindex]
  calc r.entries = front ++ (column, v) :: back := hentries
    _ |>.Perm ((column, v) :: (front ++ back)) := List.perm_middle
    _ |>.Perm ((column, v) :: swapRemove r.entries front.length) := hperm.symm.cons _

theorem take?_eq_none_iff : r.take? column = none ↔ column ∉ r.columns := by
  rw [take?, Option.map_eq_none_iff, get?_eq_none_iff]

/-- The value that is taken out is the one that the column has. -/
theorem get?_of_take? (h : r.take? column = some (v, r')) : r.get? column = some v := by
  obtain ⟨w, hw, heq⟩ := Option.map_eq_some_iff.mp h
  cases heq
  exact hw

/-- A column that is taken out is gone, and no column occurs twice among those that are left. -/
theorem nodup_of_take? (hn : r.columns.Nodup) (h : r.take? column = some (v, r')) :
    column ∉ r'.columns ∧ r'.columns.Nodup := by
  have hcolumns : r.columns.Perm (column :: r'.columns) := (perm_of_take? h).map _
  exact List.nodup_cons.mp (hcolumns.nodup_iff.mp hn)

/-- Every other column keeps its value. -/
theorem get?_take?_of_ne (hn : r.columns.Nodup) (h : r.take? column = some (v, r')) (hne : other ≠ column) :
    r'.get? other = r.get? other := by
  have hfirst : (⟨(column, v) :: r'.entries⟩ : Record).get? other = r'.get? other := by
    have hb : (other == column) = false := beq_eq_false_iff_ne.mpr hne
    simp [get?, List.lookup_cons, hb]
  rw [get?_congr (perm_of_take? h) hn other, hfirst]

end Record

end BoundSql
