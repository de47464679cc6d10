import BoundSql.Proofs.Records
import Mathlib.Data.Finset.Card
import Mathlib.Data.List.Forall2
import Mathlib.Data.List.Induction

/-!
# `BoundSql.Proofs.OrderedRecords` — records whatever was done to them

A record is an ordered map as long as it is only filled: each column stands where it was first set and has the
value that it was last given. Taking values out gives up the order, but nothing else. What is in the record is
still what the last change of each column left there, also after any mixture of filling and taking out.

## Contents
- **`Record.Change`** is a value that is set or taken out; `Record.ofChanges` makes the changes in order, and
  `Record.latest?` reads the last one of a column off the list.
- **`Record.get?_ofChanges`**: a record has what the last change of a column left. `Record.get?_apply` is one step.
- **`Record.ListsFirst`** says that columns are listed in the order of their first settings
  (`Record.listsFirst_ofList`).
- **`Record.takeEach`** takes the values of several columns out; `Record.takeEach_of_perm` empties a record.
- **`Record.IsMap`** is what holds however the entries stand, and **`Record.isOrderedMap`** says all that is known.
-/

namespace BoundSql

namespace Record

/-! ## Changes -/

/-- What is done to a record: a column is given a value, or its value is taken out. -/
inductive Change where
  | set (column : String) (v : Operand)
  | take (column : String)

/-- A setting, as a change. -/
def Change.ofSetting (setting : String × Operand) : Change :=
  .set setting.1 setting.2

/-- The column that is changed. -/
def Change.column : Change → String
  | set column _ => column
  | take column => column

/-- The value that the column has then. -/
def Change.value? : Change → Option Operand
  | set _ v => some v
  | take _ => none

/-- The record behind a change. To take out a column that is not there changes nothing. -/
def apply (r : Record) : Change → Record
  | .set column v => r.set column v
  | .take column => ((r.take? column).map (·.2)).getD r

/-- The record that changes make of an empty one. -/
def ofChanges (changes : List Change) : Record :=
  changes.foldl apply empty

/-- The value that the last change of a column leaves. -/
def latest? (column : String) (changes : List Change) : Option Operand :=
  ((changes.filter (·.column == column)).getLast?).bind Change.value?

variable {r r' : Record} {column other : String} {v : Operand}

/-- A change leaves every other column alone. -/
theorem get?_apply (hn : r.columns.Nodup) (change : Change) (column : String) :
    (r.apply change).get? column = if change.column = column then change.value? else r.get? column := by
  cases change with
  | set changed v =>
    show (r.set changed v).get? column = if changed = column then some v else r.get? column
    by_cases h : changed = column
    · rw [if_pos h, ← h, get?_set_self]
    · rw [if_neg h, get?_set_of_ne r (Ne.symm h)]
  | take taken =>
    show (((r.take? taken).map (·.2)).getD r).get? column = if taken = column then none else r.get? column
    cases htake : r.take? taken with
    | none =>
      -- The column was not there before, and it is not there now.
      have hmissing : taken ∉ r.columns := take?_eq_none_iff.mp htake
      by_cases h : taken = column
      · rw [if_pos h]
        exact get?_eq_none_iff.mpr (h ▸ hmissing)
      · rw [if_neg h]
        rfl
    | some taking =>
      obtain ⟨v, r'⟩ := taking
      by_cases h : taken = column
      · rw [if_pos h]
        exact get?_eq_none_iff.mpr (h ▸ (nodup_of_take? hn htake).1)
      · rw [if_neg h]
        exact get?_take?_of_ne hn htake (Ne.symm h)

/-- No change makes a column occur twice. -/
theorem nodup_columns_apply (hn : r.columns.Nodup) (change : Change) : (r.apply change).columns.Nodup := by
  cases change with
  | set column v => exact nodup_columns_set hn column v
  | take column =>
    show (((r.take? column).map (·.2)).getD r).columns.Nodup
    cases htake : r.take? column with
    | none => exact hn
    | some taking => exact (nodup_of_take? hn htake).2

theorem ofChanges_concat (changes : List Change) (change : Change) :
    ofChanges (changes ++ [change]) = (ofChanges changes).apply change :=
  List.foldl_concat apply empty change changes

theorem nodup_columns_ofChanges (changes : List Change) : (ofChanges changes).columns.Nodup := by
  induction changes using List.reverseRecOn with
  | nil => exact List.nodup_nil
  | append_singleton changes change ih =>
    rw [ofChanges_concat]
    exact nodup_columns_apply ih change

theorem latest?_concat (column : String) (changes : List Change) (change : Change) :
    latest? column (changes ++ [change]) =
      if change.column = column then change.value? else latest? column changes := by
  unfold latest?
  by_cases h : change.column = column
  · rw [if_pos h, List.filter_append, List.filter_singleton, beq_iff_eq.mpr h]
    simp
  · rw [if_neg h, List.filter_append, List.filter_singleton, beq_eq_false_iff_ne.mpr h]
    simp

/-- A column has what its last change left. -/
theorem get?_ofChanges (changes : List Change) (column : String) :
    (ofChanges changes).get? column = latest? column changes := by
  induction changes using List.reverseRecOn with
  | nil => rfl
  | append_singleton changes change ih =>
    rw [ofChanges_concat, get?_apply (nodup_columns_ofChanges changes), latest?_concat, ih]

/-! ## Filling a record -/

/-- Settings are changes. -/
theorem ofList_eq_ofChanges (settings : List (String × Operand)) :
    ofList settings = ofChanges (settings.map .ofSetting) := by
  rw [ofChanges, List.foldl_map]
  rfl

/-- What the last change leaves is the last setting. -/
theorem latest?_map_ofSetting (column : String) (settings : List (String × Operand)) :
    latest? column (settings.map .ofSetting) =
      ((settings.filter (·.1 == column)).getLast?).map (·.2) := by
  have hcolumn : (fun change : Change => change.column == column) ∘ Change.ofSetting =
      fun setting => setting.1 == column := rfl
  rw [latest?, List.filter_map, hcolumn, List.getLast?_map, Option.bind_map]
  exact Option.map_eq_bind.symm

/-- A list has the members of another one without repetition, in the order in which each occurs first. -/
structure ListsFirst (columns names : List String) : Prop where
  mem_iff (column : String) : column ∈ columns ↔ column ∈ names
  pairwise : columns.Pairwise fun column later => names.idxOf column < names.idxOf later

theorem ListsFirst.nodup {columns names : List String} (h : ListsFirst columns names) : columns.Nodup := by
  refine h.pairwise.imp fun {column later} hlt heq => ?_
  rw [heq] at hlt
  exact Nat.lt_irrefl _ hlt

/-- The number of different names. -/
theorem ListsFirst.length_eq {columns names : List String} (h : ListsFirst columns names) :
    columns.length = names.toFinset.card := by
  rw [← List.toFinset_card_of_nodup h.nodup, List.toFinset.ext h.mem_iff]

/-- A name that occurred before changes nothing, a new one is listed at the end. -/
theorem ListsFirst.concat {columns names : List String} (h : ListsFirst columns names) (name : String) :
    ListsFirst (if name ∈ columns then columns else columns ++ [name]) (names ++ [name]) := by
  have hpairwise : columns.Pairwise fun column later =>
      (names ++ [name]).idxOf column < (names ++ [name]).idxOf later := by
    refine h.pairwise.imp_of_mem fun hcolumn hlater hlt => ?_
    rwa [List.idxOf_append_of_mem ((h.mem_iff _).mp hcolumn), List.idxOf_append_of_mem ((h.mem_iff _).mp hlater)]
  by_cases hmem : name ∈ columns
  · rw [if_pos hmem]
    refine ⟨fun column => ?_, hpairwise⟩
    rw [List.mem_append, List.mem_singleton, ← h.mem_iff]
    exact ⟨.inl, fun hor => hor.elim id fun heq => heq ▸ hmem⟩
  · rw [if_neg hmem]
    refine ⟨fun column => ?_, List.pairwise_append.mpr ⟨hpairwise, List.pairwise_singleton _ _, ?_⟩⟩
    · rw [List.mem_append, List.mem_append, h.mem_iff]
    · -- The new name is the last one, so every other name comes before it.
      intro column hcolumn later hlater
      have hnew : name ∉ names := fun hname => hmem ((h.mem_iff name).mpr hname)
      have hold : column ∈ names := (h.mem_iff column).mp hcolumn
      rw [List.mem_singleton.mp hlater, List.idxOf_append_of_mem hold, List.idxOf_append_of_notMem hnew]
      exact Nat.lt_add_right _ (List.idxOf_lt_length_iff.mpr hold)

/-- A record that is filled lists its columns in the order of their first settings. -/
theorem listsFirst_ofList (settings : List (String × Operand)) :
    ListsFirst (ofList settings).columns (settings.map (·.1)) := by
  induction settings using List.reverseRecOn with
  | nil => exact ⟨fun _ => Iff.rfl, List.Pairwise.nil⟩
  | append_singleton settings s ih =>
    have hset : ofList (settings ++ [s]) = (ofList settings).set s.1 s.2 :=
      List.foldl_concat (fun (r : Record) (s : String × Operand) => r.set s.1 s.2) empty s settings
    rw [hset, columns_set, List.map_append]
    exact ih.concat s.1

/-! ## Taking values out -/

theorem map_fst_take? (r : Record) (column : String) : (r.take? column).map (·.1) = r.get? column := by
  rw [take?, Option.map_map]
  exact Option.map_id'

theorem isSome_get?_iff : (r.get? column).isSome ↔ column ∈ r.columns := by
  rw [Option.isSome_iff_ne_none, Ne, get?_eq_none_iff, not_not]

/-- Up to order, the columns that are left are all others. -/
theorem perm_columns_of_take? (h : r.take? column = some (v, r')) :
    r'.columns.Perm (r.columns.erase column) := by
  have hcolumns : r.columns.Perm (column :: r'.columns) := (perm_of_take? h).map _
  have herase := hcolumns.erase column
  rw [List.erase_cons_head] at herase
  exact herase.symm

/-- The values of some columns, taken out one by one, and what is left then. -/
def takeEach (r : Record) : List String → Option (List Operand × Record)
  | [] => some ([], r)
  | column :: rest =>
    (r.take? column).bind fun taking =>
      (taking.2.takeEach rest).map fun (values, left) => (taking.1 :: values, left)

/-- All values can be taken out, in any order of the columns. -/
theorem takeEach_of_perm {order : List String} (hn : r.columns.Nodup) (h : order.Perm r.columns) :
    ∃ values, r.takeEach order = some (values, empty) ∧
      List.Forall₂ (fun column v => r.get? column = some v) order values ∧
      values.Perm (r.entries.map (·.2)) := by
  induction order generalizing r with
  | nil =>
    obtain ⟨entries⟩ := r
    obtain rfl : entries = [] := List.map_eq_nil_iff.mp h.nil_eq.symm
    exact ⟨[], rfl, .nil, .nil⟩
  | cons column rest ih =>
    have hmem : column ∈ r.columns := h.mem_iff.mp List.mem_cons_self
    obtain ⟨⟨v, r'⟩, htake⟩ := Option.ne_none_iff_exists'.mp fun hnone => take?_eq_none_iff.mp hnone hmem
    have hperm : r.entries.Perm ((column, v) :: r'.entries) := perm_of_take? htake
    obtain ⟨hgone, hn'⟩ := nodup_of_take? hn htake
    have hrest : rest.Perm r'.columns := (h.trans (hperm.map _)).cons_inv
    obtain ⟨values, heach, hvalues, hall⟩ := ih hn' hrest
    refine ⟨v :: values, ?_, .cons (get?_of_take? htake) ?_, (hall.cons v).trans (hperm.map Prod.snd).symm⟩
    · rw [takeEach, htake]
      show (r'.takeEach rest).map (fun (values, left) => (v :: values, left)) = _
      rw [heach]
      rfl
    · -- The columns behind the first one are others, so they have their values in both records.
      rw [List.forall₂_iff_zip] at hvalues ⊢
      refine ⟨hvalues.1, fun {other w} hpair => ?_⟩
      have hother : other ∈ r'.columns := hrest.mem_iff.mp (List.of_mem_zip hpair).1
      have hne : other ≠ column := fun heq => hgone (heq ▸ hother)
      rw [← get?_take?_of_ne hn htake hne]
      exact hvalues.2 hpair

/-! ## Records as maps -/

/-- What a caller may rely on when values are taken out, in whatever places the entries stand. -/
structure IsMap (r : Record) : Prop where
  nodup : r.columns.Nodup
  isSome_iff (column : String) : (r.get? column).isSome ↔ column ∈ r.columns
  value (column : String) : (r.take? column).map (·.1) = r.get? column
  /-- Only the column is gone whose value is taken out. -/
  left {column : String} {v : Operand} {r' : Record} : r.take? column = some (v, r') →
    r'.columns.Perm (r.columns.erase column) ∧ ∀ other, other ≠ column → r'.get? other = r.get? other
  /-- Each value comes out once, under its own column, and nothing is left. -/
  all {order : List String} : order.Perm r.columns →
    ∃ values, r.takeEach order = some (values, empty) ∧
      List.Forall₂ (fun column v => r.get? column = some v) order values ∧
      values.Perm (r.entries.map (·.2))

/-- All of it rests on the columns being distinct. -/
theorem isMap_of_nodup (hn : r.columns.Nodup) : r.IsMap where
  nodup := hn
  isSome_iff _ := isSome_get?_iff
  value := map_fst_take? r
  left h := ⟨perm_columns_of_take? h, fun _ hne => get?_take?_of_ne hn h hne⟩
  all h := takeEach_of_perm hn h

/-- **A record is an ordered map.** Filled with settings, it lists each column once, in the order of the first
    settings, under its last value. Filled and emptied in any way, it has under each column what the last change of
    that column left, and taking a value out takes that column out and nothing else. -/
theorem isOrderedMap :
    (∀ settings : List (String × Operand),
      (ofList settings).columns.Nodup ∧
        ListsFirst (ofList settings).columns (settings.map (·.1)) ∧
        (∀ column, (ofList settings).get? column =
          ((settings.filter (·.1 == column)).getLast?).map (·.2)) ∧
        (ofList settings).size = (settings.map (·.1)).toFinset.card) ∧
      ∀ changes : List Change,
        (ofChanges changes).IsMap ∧ ∀ column, (ofChanges changes).get? column = latest? column changes := by
  refine ⟨fun settings => ?_, fun changes => ?_⟩
  · have hlists := listsFirst_ofList settings
    refine ⟨hlists.nodup, hlists, fun column => ?_, ?_⟩
    · rw [ofList_eq_ofChanges, get?_ofChanges, latest?_map_ofSetting]
    · rw [← hlists.length_eq, columns, List.length_map, size]
  · exact ⟨isMap_of_nodup (nodup_columns_ofChanges changes), get?_ofChanges changes⟩

/-- A visit whose guest is corrected and whose room is left open again. -/
def visitChanges : List Change :=
  [.set "room" (.inlined (.int 4)), .set "guest" .null, .set "day" (.inlined (.text "Monday")),
    .set "guest" (.inlined (.int 7)), .take "room"]

/-- The day has moved to the place of the room, and both values that are left can be taken out. -/
theorem isOrderedMap_visit :
    (ofChanges visitChanges).columns = ["day", "guest"] ∧ ["guest", "day"].Perm (ofChanges visitChanges).columns ∧
      (ofChanges visitChanges).get? "guest" = some (.inlined (.int 7)) ∧
      (ofChanges visitChanges).takeEach ["guest", "day"] =
        some ([.inlined (.int 7), .inlined (.text "Monday")], empty) := by
  obtain ⟨hmap, hlatest⟩ := isOrderedMap.2 visitChanges
  have horder : ["guest", "day"].Perm (ofChanges visitChanges).columns := by decide +kernel
  have hguest : (ofChanges visitChanges).get? "guest" = some (.inlined (.int 7)) := hlatest "guest"
  have hday : (ofChanges visitChanges).get? "day" = some (.inlined (.text "Monday")) := hlatest "day"
  obtain ⟨values, htake, hvalues, -⟩ := hmap.all horder
  refine ⟨by decide +kernel, horder, hguest, ?_⟩
  rw [htake]
  -- Each value is the one that was looked up.
  obtain ⟨v, behind, hv, hbehind, rfl⟩ := List.forall₂_cons_left_iff.mp hvalues
  obtain ⟨w, none, hw, hnone, rfl⟩ := List.forall₂_cons_left_iff.mp hbehind
  obtain rfl := List.forall₂_nil_left_iff.mp hnone
  cases hguest.symm.trans hv
  cases hday.symm.trans hw
  rfl

end Record

end BoundSql
