import BoundSql.Build.Mutation
import BoundSql.Proofs.Records

/-!
# `BoundSql.Proofs.Batches` — a batch is a table

A caller gives the rows of an INSERT as records, each with its columns in an order of its own. What comes of
them is a table: distinct columns, and in each row one single value for each of them. The values of a record
are taken out one by one while the entries that are left change places, so that each value lands under its
own column has to be shown.

## Contents
- **`Operand.IsSingle`** operands may stand in a row; `Cell.operand` is the operand that a cell was made of.
- **`Batch.cellsAt`** looks a row up column by column; **`Batch.rowOf_eq_cellsAt`** says that taking the values
  out of a record gives the same row.
- **`Batch.offer`** is the addition as it works on a batch in place, value by value; **`Batch.runOn_offer`** says
  that it leaves the new batch, or the old one where it stops.
- **`Batch.Reachable`** batches are those that come from adding records, as does that of every INSERT
  (`Insert.reachable_batch`). **`Batch.IsTable`** holds of each: `Batch.isTable_attempt` for one call,
  `Batch.Reachable.isTable` for all of them.
- **`Batch.aligned_of_reachable`** says which records are added, and what the batch is afterwards.
-/

namespace BoundSql

/-! ## Single values -/

/-- An operand that may stand in a row: neither a list, written out or bound, nor a subquery. -/
def Operand.IsSingle : Operand → Prop
  | .null | .inlined _ => True
  | .bound p => p.content.isList = false
  | .inlinedList _ | .subquery _ => False

/-- The operand that a cell was made of. -/
def Cell.operand : Cell → Operand
  | .null => .null
  | .bound p => .bound ⟨.scalar p.value, p.type⟩
  | .inlined v => .inlined v

theorem Operand.cell?_eq_some_iff {o : Operand} {cell : Cell} : o.cell? = some cell ↔ o = cell.operand := by
  constructor
  · intro h
    unfold Operand.cell? at h
    split at h <;> cases h <;> rfl
  · rintro rfl
    cases cell <;> rfl

/-- Exactly the single operands make cells. -/
theorem Operand.isSingle_iff {o : Operand} : o.IsSingle ↔ ∃ cell, o.cell? = some cell := by
  cases o with
  | null => exact ⟨fun _ => ⟨.null, rfl⟩, fun _ => trivial⟩
  | inlined v => exact ⟨fun _ => ⟨.inlined v, rfl⟩, fun _ => trivial⟩
  | inlinedList vs => exact ⟨False.elim, nofun⟩
  | subquery s => exact ⟨False.elim, nofun⟩
  | bound p =>
    obtain ⟨content, type⟩ := p
    cases content with
    | scalar v => exact ⟨fun _ => ⟨.bound ⟨v, type⟩, rfl⟩, fun _ => rfl⟩
    | list vs => exact ⟨nofun, nofun⟩

theorem Cell.isSingle_operand (cell : Cell) : cell.operand.IsSingle :=
  Operand.isSingle_iff.mpr ⟨cell, Operand.cell?_eq_some_iff.mpr rfl⟩

namespace Batch

variable {b b' : Batch} {r r' : Record} {columns : List String} {row : List Cell} {f : Fault}

/-! ## Rows -/

/-- The cells under columns whose values are known. -/
def cellsAt (value? : String → Option Operand) : List String → Except Fault (List Cell)
  | [] => .ok []
  | column :: rest =>
    match value? column with
    | none => .error (.missingColumn column)
    | some v =>
      match v.cell? with
      | none => .error (.notSingleValue column)
      | some cell => (cellsAt value? rest).map (cell :: ·)

section Cells

variable {value? : String → Option Operand} {column : String} {rest : List String} {v : Operand}
  {cell : Cell}

theorem cellsAt_of_missing (h : value? column = none) :
    cellsAt value? (column :: rest) = .error (.missingColumn column) := by
  rw [cellsAt, h]

theorem cellsAt_of_not_single (h : value? column = some v) (hv : v.cell? = none) :
    cellsAt value? (column :: rest) = .error (.notSingleValue column) := by
  simp only [cellsAt, h, hv]

theorem cellsAt_of_cell (h : value? column = some v) (hv : v.cell? = some cell) :
    cellsAt value? (column :: rest) = (cellsAt value? rest).map (cell :: ·) := by
  simp only [cellsAt, h, hv]

/-- Only the values of the given columns matter. -/
theorem cellsAt_congr {value?' : String → Option Operand}
    (h : ∀ column ∈ columns, value? column = value?' column) :
    cellsAt value? columns = cellsAt value?' columns := by
  induction columns with
  | nil => rfl
  | cons column rest ih =>
    obtain ⟨hcolumn, hrest⟩ := List.forall_mem_cons.mp h
    rw [cellsAt, cellsAt, hcolumn, ih hrest]

/-- A row that is looked up has under each column the value of that column, and nothing else. -/
theorem cellsAt_eq_ok_iff :
    cellsAt value? columns = .ok row ↔
      List.Forall₂ (fun column cell => value? column = some cell.operand) columns row := by
  induction columns generalizing row with
  | nil =>
    rw [List.forall₂_nil_left_iff]
    exact ⟨fun h => (Except.ok.inj h).symm, fun h => h ▸ rfl⟩
  | cons column rest ih =>
    rw [List.forall₂_cons_left_iff]
    constructor
    · intro h
      cases hvalue : value? column with
      | none =>
        rw [cellsAt_of_missing hvalue] at h
        cases h
      | some v =>
        cases hcell : v.cell? with
        | none =>
          rw [cellsAt_of_not_single hvalue hcell] at h
          cases h
        | some cell =>
          rw [cellsAt_of_cell hvalue hcell] at h
          obtain ⟨tail, htail, rfl⟩ := map_eq_ok_iff.mp h
          exact ⟨cell, tail, congrArg some (Operand.cell?_eq_some_iff.mp hcell), ih.mp htail, rfl⟩
    · rintro ⟨cell, tail, hvalue, htail, rfl⟩
      rw [cellsAt_of_cell hvalue (Operand.cell?_eq_some_iff.mpr rfl), ih.mpr htail]
      rfl

/-- What keeps a row from being looked up: a column without a value, or with more than a single one. -/
theorem cellsAt_eq_error (h : cellsAt value? columns = .error f) :
    ∃ column ∈ columns, (value? column = none ∧ f = .missingColumn column) ∨
      ∃ v, value? column = some v ∧ ¬ v.IsSingle ∧ f = .notSingleValue column := by
  induction columns with
  | nil => cases h
  | cons column rest ih =>
    cases hvalue : value? column with
    | none =>
      rw [cellsAt_of_missing hvalue] at h
      exact ⟨column, List.mem_cons_self, .inl ⟨hvalue, (Except.error.inj h).symm⟩⟩
    | some v =>
      cases hcell : v.cell? with
      | none =>
        rw [cellsAt_of_not_single hvalue hcell] at h
        refine ⟨column, List.mem_cons_self, .inr ⟨v, hvalue, ?_, (Except.error.inj h).symm⟩⟩
        rw [Operand.isSingle_iff, hcell]
        exact nofun
      | some cell =>
        rw [cellsAt_of_cell hvalue hcell] at h
        obtain ⟨other, hother, hwhy⟩ := ih (map_eq_error_iff.mp h)
        exact ⟨other, List.mem_cons_of_mem column hother, hwhy⟩

end Cells

/-- Taking values out one by one gives what looking them up gives, although the entries that are left change
    places. -/
theorem rowOf_eq_cellsAt (hc : columns.Nodup) (hn : r.columns.Nodup) :
    rowOf columns r = cellsAt r.get? columns := by
  induction columns generalizing r with
  | nil => rfl
  | cons column rest ih =>
    obtain ⟨hcolumn, hrest⟩ := List.nodup_cons.mp hc
    rw [rowOf, cellsAt]
    cases htake : r.take? column with
    | none => rw [Record.get?_eq_none_iff.mpr (Record.take?_eq_none_iff.mp htake)]
    | some taken =>
      obtain ⟨v, left⟩ := taken
      have hleft := ih hrest (Record.nodup_of_take? hn htake).2
      -- None of the later columns is the one that was taken out.
      have hlater : cellsAt left.get? rest = cellsAt r.get? rest := cellsAt_congr fun other hother =>
        Record.get?_take?_of_ne hn htake fun h => hcolumn (h ▸ hother)
      rw [Record.get?_of_take? htake]
      cases hcell : v.cell? with
      | none => simp only [hcell]
      | some cell => simp only [hcell, hleft, hlater]

/-! ## Adding a record -/

/-- The batch after a record was offered to it. One that does not fit leaves it as it is. -/
def attempt (b : Batch) (r : Record) : Batch :=
  match b.add r with
  | .ok b' => b'
  | .error _ => b

/-- A batch that comes from offering records to the empty one, whether or not they fit. -/
inductive Reachable : Batch → Prop where
  | empty : Reachable .empty
  | attempt {b : Batch} {r : Record} (hb : Reachable b) (hr : r.Reachable) : Reachable (b.attempt r)

/-- A table: distinct columns, no rows without columns or columns without rows, and in each row one single
    value for each column. -/
structure IsTable (b : Batch) : Prop where
  nodup_columns : b.columns.Nodup
  columns_eq_nil_iff : b.columns = [] ↔ b.rows = []
  length_row : ∀ row ∈ b.rows, row.length = b.columns.length
  isSingle : ∀ row ∈ b.rows, ∀ cell ∈ row, cell.operand.IsSingle

/-- A record has columns, and they are those of the batch if that has any. -/
def Agrees (b : Batch) (r : Record) : Prop :=
  r.columns ≠ [] ∧ (b.columns ≠ [] → ∀ column, column ∈ r.columns ↔ column ∈ b.columns)

/-- The columns of a batch after a record was added: the first record brings them. -/
def columnsWith (b : Batch) (r : Record) : List String :=
  if b.columns = [] then r.columns else b.columns

theorem nodup_columnsWith (hb : b.columns.Nodup) (hr : r.columns.Nodup) : (b.columnsWith r).Nodup := by
  unfold columnsWith
  split
  · exact hr
  · exact hb

theorem mem_columnsWith_iff (h : b.Agrees r) {column : String} :
    column ∈ b.columnsWith r ↔ column ∈ r.columns := by
  unfold columnsWith
  split
  · exact Iff.rfl
  · rename_i hcolumns
    exact (h.2 hcolumns column).symm

theorem columnsWith_ne_nil (h : b.Agrees r) : b.columnsWith r ≠ [] := by
  unfold columnsWith
  split
  · exact h.1
  · assumption

/-- All that adding a record with the right columns does: its values are looked up under the columns of the
    batch, in one new row. -/
theorem add_of_agrees (hb : b.columns.Nodup) (hr : r.columns.Nodup) (h : b.Agrees r) :
    b.add r = (cellsAt r.get? (b.columnsWith r)).map fun row => ⟨b.columnsWith r, b.rows ++ [row]⟩ := by
  have hrecord : ¬ r.isEmpty = true := by
    intro hempty
    exact h.1 (List.map_eq_nil_iff.mpr (List.isEmpty_iff.mp hempty))
  have hrow := rowOf_eq_cellsAt (nodup_columnsWith hb hr) hr
  unfold add
  rw [if_neg hrecord, ← hrow]
  unfold columnsWith
  by_cases hcolumns : b.columns = []
  · rw [if_pos (List.isEmpty_iff.mpr hcolumns), if_pos hcolumns]
  · have hperm : r.columns.Perm b.columns := (List.perm_ext_iff_of_nodup hr hb).mpr (h.2 hcolumns)
    rw [if_neg (fun he => hcolumns (List.isEmpty_iff.mp he)), if_pos (List.isPerm_iff.mpr hperm),
      if_neg hcolumns]

/-- A record without columns, or with others than the batch, is refused for that. -/
theorem add_of_not_agrees (hb : b.columns.Nodup) (hr : r.columns.Nodup) (h : ¬ b.Agrees r) :
    b.add r = .error .emptyRecord ∨ b.add r = .error .columnsDiffer := by
  unfold add
  by_cases hrecord : r.isEmpty = true
  · rw [if_pos hrecord]
    exact .inl rfl
  · rw [if_neg hrecord]
    have hne : r.columns ≠ [] := by
      intro hnil
      exact hrecord (List.isEmpty_iff.mpr (List.map_eq_nil_iff.mp hnil))
    by_cases hcolumns : b.columns = []
    · exact absurd ⟨hne, fun hc => absurd hcolumns hc⟩ h
    · have hperm : ¬ r.columns.isPerm b.columns = true := by
        intro hperm
        have hsame := (List.perm_ext_iff_of_nodup hr hb).mp (List.isPerm_iff.mp hperm)
        exact h ⟨hne, fun _ => hsame⟩
      rw [if_neg (fun he => hcolumns (List.isEmpty_iff.mp he)), if_neg hperm]
      exact .inr rfl

/-- What a record that was added has left: under each column its own value, in one new row. -/
theorem add_eq_ok_iff (hb : b.columns.Nodup) (hr : r.columns.Nodup) :
    b.add r = .ok b' ↔
      b.Agrees r ∧ b'.columns = b.columnsWith r ∧
        ∃ row, b'.rows = b.rows ++ [row] ∧
          List.Forall₂ (fun column cell => r.get? column = some cell.operand) b'.columns row := by
  by_cases hagrees : b.Agrees r
  · rw [add_of_agrees hb hr hagrees]
    constructor
    · intro h
      obtain ⟨row, hrow, rfl⟩ := map_eq_ok_iff.mp h
      exact ⟨hagrees, rfl, row, rfl, cellsAt_eq_ok_iff.mp hrow⟩
    · rintro ⟨-, hcolumns, row, hrows, hcells⟩
      obtain ⟨columns', rows'⟩ := b'
      simp only at hcolumns hrows hcells
      subst hcolumns hrows
      rw [cellsAt_eq_ok_iff.mpr hcells]
      rfl
  · refine ⟨fun h => ?_, fun h => absurd h.1 hagrees⟩
    rcases add_of_not_agrees hb hr hagrees with he | he <;> rw [he] at h <;> cases h

/-- Why a record is refused: it has the wrong columns, or one of its values is not a single one. -/
theorem add_eq_error (hb : b.columns.Nodup) (hr : r.columns.Nodup) (h : b.add r = .error f) :
    (¬ b.Agrees r ∧ (f = .emptyRecord ∨ f = .columnsDiffer)) ∨
      (b.Agrees r ∧ ∃ column v, r.get? column = some v ∧ ¬ v.IsSingle ∧ f = .notSingleValue column) := by
  by_cases hagrees : b.Agrees r
  · refine .inr ⟨hagrees, ?_⟩
    rw [add_of_agrees hb hr hagrees] at h
    have hrow := map_eq_error_iff.mp h
    obtain ⟨column, hcolumn, ⟨hnone, -⟩ | ⟨v, hv, hsingle, hf⟩⟩ := cellsAt_eq_error hrow
    · -- No column of the batch is missing in the record.
      exact absurd ((mem_columnsWith_iff hagrees).mp hcolumn) (Record.get?_eq_none_iff.mp hnone)
    · exact ⟨column, v, hv, hsingle, hf⟩
  · refine .inl ⟨hagrees, ?_⟩
    rcases add_of_not_agrees hb hr hagrees with he | he <;> rw [he] at h <;> cases h
    · exact .inl rfl
    · exact .inr rfl

/-- A record is added exactly if its columns are right and its values are single ones. -/
theorem exists_add_eq_ok_iff (hb : b.columns.Nodup) (hr : r.columns.Nodup) :
    (∃ b', b.add r = .ok b') ↔ b.Agrees r ∧ ∀ e ∈ r.entries, e.2.IsSingle := by
  constructor
  · rintro ⟨b', h⟩
    obtain ⟨hagrees, hcolumns, row, -, hcells⟩ := (add_eq_ok_iff hb hr).mp h
    refine ⟨hagrees, ?_⟩
    rintro ⟨column, v⟩ he
    have hmem : column ∈ b'.columns := by
      rw [hcolumns, mem_columnsWith_iff hagrees]
      exact List.mem_map_of_mem he
    obtain ⟨i, hi, rfl⟩ := List.getElem_of_mem hmem
    have hcell := hcells.get hi (hcells.length_eq ▸ hi)
    rw [List.get_eq_getElem, (Record.get?_eq_some_iff hr).mpr he] at hcell
    rw [Option.some.inj hcell]
    exact Cell.isSingle_operand _
  · rintro ⟨hagrees, hsingle⟩
    cases hadd : b.add r with
    | ok b' => exact ⟨b', rfl⟩
    | error f =>
      rcases add_eq_error hb hr hadd with ⟨hnot, -⟩ | ⟨-, column, v, hv, hnot, -⟩
      · exact absurd hagrees hnot
      · exact absurd (hsingle _ ((Record.get?_eq_some_iff hr).mp hv)) hnot

/-- Where the batch gives the order of columns, that of the record does not matter. -/
theorem add_congr (hr : r.columns.Nodup) (hb : b.columns.Nodup) (hne : b.columns ≠ [])
    (h : r'.entries.Perm r.entries) : b.add r' = b.add r := by
  have hr' : r'.columns.Nodup := (Record.perm_columns h).nodup_iff.mpr hr
  have hvalues : r'.get? = r.get? := funext fun column => Record.get?_congr h hr' column
  have hrow : rowOf b.columns r' = rowOf b.columns r := by
    rw [rowOf_eq_cellsAt hb hr', rowOf_eq_cellsAt hb hr, hvalues]
  have hempty : r'.isEmpty = r.isEmpty := by
    rw [Record.isEmpty, Record.isEmpty, Bool.eq_iff_iff, List.isEmpty_iff, List.isEmpty_iff]
    exact ⟨fun hnil => (hnil ▸ h).symm.eq_nil, fun hnil => (hnil ▸ h).eq_nil⟩
  have hperm : r'.columns.isPerm b.columns = r.columns.isPerm b.columns := by
    rw [Bool.eq_iff_iff, List.isPerm_iff, List.isPerm_iff]
    exact ⟨(Record.perm_columns h).symm.trans, (Record.perm_columns h).trans⟩
  have hcolumns : ¬ b.columns.isEmpty = true := fun he => hne (List.isEmpty_iff.mp he)
  unfold add
  rw [if_neg hcolumns, if_neg hcolumns, hempty, hperm, hrow]

/-! ## Adding a record in place -/

/-- A program that works on a batch and may stop with a fault. What it has done to the batch by then stays. -/
abbrev InPlace (α : Type) : Type :=
  ExceptT Fault (StateM Batch) α

/-- What a program gives on a batch, and the batch that it leaves. -/
def InPlace.runOn {α : Type} (x : InPlace α) (b : Batch) : Except Fault α × Batch :=
  x.run.run b

/-- One round of the loop over the columns: the value of a column is taken out of what is left of the record,
    and its cell is put behind the row. -/
def takeCell : Record × List Cell → String → InPlace (Record × List Cell)
  | (left, row), column =>
    match left.take? column with
    | none => throw (.missingColumn column)
    | some (v, left) =>
      match v.cell? with
      | none => throw (.notSingleValue column)
      | some cell => pure (left, row ++ [cell])

/-- The columns of the batch after a record was added, if the record has the right ones. -/
def fixColumns (r : Record) : InPlace (List String) := do
  if r.isEmpty then throw .emptyRecord
  let b ← get
  if b.columns.isEmpty then return r.columns
  else if r.columns.isPerm b.columns then return b.columns
  else throw .columnsDiffer

/-- Adds a record to a batch in place. The batch is touched only when the row is complete. -/
def offer (r : Record) : InPlace Unit := do
  let columns ← fixColumns r
  let (_, row) ← columns.foldlM takeCell (r, [])
  modify fun b => { b with columns := columns }
  modify fun b => { b with rows := b.rows ++ [row] }

section InPlace

variable {α β : Type}

theorem runOn_bind (x : InPlace α) (k : α → InPlace β) (b : Batch) :
    (x >>= k).runOn b =
      match x.runOn b with
      | (.ok a, b') => (k a).runOn b'
      | (.error f, b') => (.error f, b') := by
  show (x >>= k).run.run b = match x.run.run b with | (.ok a, b') => _ | (.error f, b') => _
  rw [ExceptT.run_bind, StateT.run_bind]
  rcases x.run.run b with ⟨a | f, b'⟩ <;> rfl

/-- Where a program stops, what would come next does not matter. -/
theorem runOn_bind_of_error {x : InPlace α} (k : α → InPlace β) (h : x.runOn b = (.error f, b')) :
    (x >>= k).runOn b = (.error f, b') := by
  rw [runOn_bind, h]

theorem runOn_bind_of_ok {x : InPlace α} {a : α} (k : α → InPlace β) (h : x.runOn b = (.ok a, b')) :
    (x >>= k).runOn b = (k a).runOn b' := by
  rw [runOn_bind, h]

/-- **The loop over the columns.** It gives the cells of the record behind those that are there, or stops where
    there is none, and either way leaves the batch alone. -/
theorem runOn_foldlM_takeCell (columns : List String) (r : Record) (row : List Cell) (b : Batch) :
    (∀ cells, rowOf columns r = .ok cells →
        ∃ left, (columns.foldlM takeCell (r, row)).runOn b = (.ok (left, row ++ cells), b)) ∧
      ∀ f, rowOf columns r = .error f → (columns.foldlM takeCell (r, row)).runOn b = (.error f, b) := by
  induction columns generalizing r row with
  | nil =>
    refine ⟨?_, ?_⟩
    · intro cells hcells
      cases hcells
      exact ⟨r, by rw [List.append_nil]; rfl⟩
    · intro f hf
      cases hf
  | cons column rest ih =>
    rw [List.foldlM_cons, rowOf]
    cases htake : r.take? column with
    | none =>
      have hround : (takeCell (r, row) column).runOn b = (.error (.missingColumn column), b) := by
        simp only [takeCell, htake]
        rfl
      refine ⟨?_, ?_⟩
      · intro cells hcells
        cases hcells
      · intro f hf
        cases hf
        exact runOn_bind_of_error _ hround
    | some taken =>
      obtain ⟨v, left⟩ := taken
      cases hcell : v.cell? with
      | none =>
        have hround : (takeCell (r, row) column).runOn b = (.error (.notSingleValue column), b) := by
          simp only [takeCell, htake, hcell]
          rfl
        simp only [hcell]
        refine ⟨?_, ?_⟩
        · intro cells hcells
          cases hcells
        · intro f hf
          cases hf
          exact runOn_bind_of_error _ hround
      | some cell =>
        have hround : (takeCell (r, row) column).runOn b = (.ok (left, row ++ [cell]), b) := by
          simp only [takeCell, htake, hcell]
          rfl
        obtain ⟨hok, herror⟩ := ih left (row ++ [cell])
        simp only [hcell]
        rw [runOn_bind_of_ok _ hround]
        refine ⟨?_, ?_⟩
        · intro cells hcells
          obtain ⟨tail, htail, rfl⟩ := map_eq_ok_iff.mp hcells
          obtain ⟨last, hlast⟩ := hok tail htail
          exact ⟨last, by rw [hlast, List.append_assoc]; rfl⟩
        · intro f hf
          exact herror f (map_eq_error_iff.mp hf)

/-- **A record is added in place as a whole or not at all.** If the addition succeeds, the batch is the new one;
    wherever it stops, the batch is what it was. -/
theorem runOn_offer (b : Batch) (r : Record) :
    (offer r).runOn b =
      match b.add r with
      | .ok b' => (.ok (), b')
      | .error f => (.error f, b) := by
  -- With the columns fixed, the rest of the program is the loop and two assignments.
  have hrest (columns : List String) (hfix : (fixColumns r).runOn b = (.ok columns, b)) :
      (offer r).runOn b =
        match (rowOf columns r).map fun row => (⟨columns, b.rows ++ [row]⟩ : Batch) with
        | .ok b' => (.ok (), b')
        | .error f => (.error f, b) := by
    rw [offer, runOn_bind_of_ok _ hfix]
    obtain ⟨hok, herror⟩ := runOn_foldlM_takeCell columns r [] b
    cases hrow : rowOf columns r with
    | ok row =>
      obtain ⟨left, hloop⟩ := hok row hrow
      rw [runOn_bind_of_ok _ hloop]
      rfl
    | error f =>
      rw [runOn_bind_of_error _ (herror f hrow)]
      rfl
  unfold add
  by_cases hrecord : r.isEmpty = true
  · have hfix : (fixColumns r).runOn b = (.error .emptyRecord, b) := by
      rw [fixColumns, if_pos hrecord]
      rfl
    rw [if_pos hrecord, offer, runOn_bind_of_error _ hfix]
  · have hfix : (fixColumns r).runOn b =
        (if b.columns.isEmpty then pure r.columns
          else if r.columns.isPerm b.columns then pure b.columns
          else throw .columnsDiffer : InPlace (List String)).runOn b := by
      rw [fixColumns, if_neg hrecord]
      rfl
    rw [if_neg hrecord]
    by_cases hcolumns : b.columns.isEmpty = true
    · rw [if_pos hcolumns] at hfix ⊢
      exact hrest r.columns hfix
    · rw [if_neg hcolumns] at hfix ⊢
      by_cases hperm : r.columns.isPerm b.columns = true
      · rw [if_pos hperm] at hfix ⊢
        exact hrest b.columns hfix
      · rw [if_neg hperm] at hfix ⊢
        exact runOn_bind_of_error _ hfix

/-- What an addition in place leaves is what it is said to leave of a batch that may refuse the record. -/
theorem snd_runOn_offer (b : Batch) (r : Record) : ((offer r).runOn b).2 = b.attempt r := by
  rw [runOn_offer, attempt]
  cases b.add r <;> rfl

end InPlace

/-! ## Batches that a caller can make -/

theorem attempt_of_ok (h : b.add r = .ok b') : b.attempt r = b' := by
  rw [attempt, h]

theorem attempt_of_error (h : b.add r = .error f) : b.attempt r = b := by
  rw [attempt, h]

/-- One more record leaves a table a table, whether it is added or refused. -/
theorem isTable_attempt (hb : b.IsTable) (hr : r.columns.Nodup) : (b.attempt r).IsTable := by
  cases hadd : b.add r with
  | error f => rwa [attempt_of_error hadd]
  | ok b' =>
    rw [attempt_of_ok hadd]
    obtain ⟨hagrees, hcolumns, row, hrows, hcells⟩ := (add_eq_ok_iff hb.nodup_columns hr).mp hadd
    refine ⟨?_, ?_, ?_, fun _ _ cell _ => cell.isSingle_operand⟩
    · rw [hcolumns]
      exact nodup_columnsWith hb.nodup_columns hr
    · rw [hcolumns, hrows]
      exact iff_of_false (columnsWith_ne_nil hagrees) (by simp)
    · intro row' hrow'
      rw [hrows, List.mem_append, List.mem_singleton] at hrow'
      rcases hrow' with hold | rfl
      · -- A batch with rows has columns, and those stay.
        have hne : b.columns ≠ [] := fun hnil =>
          List.ne_nil_of_mem hold (hb.columns_eq_nil_iff.mp hnil)
        rw [hcolumns, columnsWith, if_neg hne]
        exact hb.length_row row' hold
      · exact hcells.length_eq.symm

theorem Reachable.isTable (h : b.Reachable) : b.IsTable := by
  induction h with
  | empty => exact ⟨List.nodup_nil, iff_of_true rfl rfl, nofun, nofun⟩
  | attempt _ hr ih => exact isTable_attempt ih hr.nodup_columns

/-- **A batch is a column-aligned table.** Whatever records were offered to it, its columns are distinct and each
    row has one single value for each of them. A record is added exactly if it has columns, they are those of
    the batch if that has any, and its values are single ones. Then the columns are those of the batch, or of
    the record if it is the first one, and the one new row has under each column the value of the record; in
    what order the record has them does not matter to a batch with columns. A record that is refused leaves the
    batch as it is. Its columns are to blame, or else one of its values; a missing column never is. -/
theorem aligned_of_reachable (hb : b.Reachable) (hr : r.Reachable) :
    b.IsTable ∧
      ((∃ b', b.add r = .ok b') ↔
        r.columns ≠ [] ∧ (b.columns ≠ [] → ∀ column, column ∈ r.columns ↔ column ∈ b.columns) ∧
          ∀ e ∈ r.entries, e.2.IsSingle) ∧
      (∀ b', b.add r = .ok b' →
        b.attempt r = b' ∧ b'.columns = (if b.columns = [] then r.columns else b.columns) ∧
          ∃ row, b'.rows = b.rows ++ [row] ∧
            List.Forall₂ (fun column cell => r.get? column = some cell.operand) b'.columns row) ∧
      (b.columns ≠ [] → ∀ r' : Record, r'.entries.Perm r.entries → b.add r' = b.add r) ∧
      ∀ f, b.add r = .error f →
        b.attempt r = b ∧ (f.kind = .structural ↔ ¬ b.Agrees r) ∧ (f.kind = .shape ↔ b.Agrees r) ∧
          ∀ column, f ≠ .missingColumn column := by
  have htable := hb.isTable
  have hcolumns := htable.nodup_columns
  have hrecord := hr.nodup_columns
  refine ⟨htable, ?_, ?_, fun hne r' => add_congr hrecord hcolumns hne, ?_⟩
  · rw [exists_add_eq_ok_iff hcolumns hrecord, Agrees, and_assoc]
  · intro b' hadd
    obtain ⟨-, hnew, hrow⟩ := (add_eq_ok_iff hcolumns hrecord).mp hadd
    exact ⟨attempt_of_ok hadd, hnew, hrow⟩
  · intro f hadd
    refine ⟨attempt_of_error hadd, ?_⟩
    rcases add_eq_error hcolumns hrecord hadd with ⟨hnot, rfl | rfl⟩ | ⟨hagrees, column, v, -, -, rfl⟩
    · exact ⟨iff_of_true rfl hnot, iff_of_false nofun hnot, nofun⟩
    · exact ⟨iff_of_true rfl hnot, iff_of_false nofun hnot, nofun⟩
    · exact ⟨iff_of_false nofun (not_not_intro hagrees), iff_of_true rfl hagrees, nofun⟩

/-- A batch with one row of three columns, which then refused a record without one of them. -/
def staff : Batch :=
  (Batch.empty.attempt
    (.ofList [("name", .inlined (.text "Bob")), ("age", .inlined (.int 40)), ("note", .null)])).attempt
      (.ofList [("name", .inlined (.text "Cid")), ("age", .inlined (.int 7))])

/-- A record for `staff` in another order, in which one column was set twice. -/
def newcomer : Record :=
  .ofList [("note", .inlined (.text "on leave")), ("name", .bound ⟨.scalar (.text "Ann"), .string⟩),
    ("age", .bound ⟨.scalar (.int 25), .integer⟩), ("note", .inlined (.text "new"))]

/-- The values of `newcomer` land under the columns of `staff`, in their order. -/
theorem aligned_of_reachable_staff :
    (staff.Reachable ∧ newcomer.Reachable) ∧ staff.IsTable ∧
      ∃ b', staff.add newcomer = .ok b' ∧ staff.attempt newcomer = b' ∧
        b'.columns = ["name", "age", "note"] ∧
        b'.rows = [[.inlined (.text "Bob"), .inlined (.int 40), .null],
          [.bound ⟨.text "Ann", .string⟩, .bound ⟨.int 25, .integer⟩, .inlined (.text "new")]] := by
  have hb : staff.Reachable := .attempt (.attempt .empty (Record.reachable_ofList _)) (Record.reachable_ofList _)
  have hr : newcomer.Reachable := Record.reachable_ofList _
  obtain ⟨htable, -, hadded, -⟩ := aligned_of_reachable hb hr
  have hadd : staff.add newcomer = .ok ⟨["name", "age", "note"],
      [[.inlined (.text "Bob"), .inlined (.int 40), .null],
        [.bound ⟨.text "Ann", .string⟩, .bound ⟨.int 25, .integer⟩, .inlined (.text "new")]]⟩ := by rfl
  obtain ⟨hattempt, hcolumns, -⟩ := hadded _ hadd
  exact ⟨⟨hb, hr⟩, htable, _, hadd, hattempt, hcolumns, rfl⟩

end Batch

/-! ## The batch of an INSERT -/

namespace Insert

/-- The records that a step offers to the batch, in order. -/
def Step.offered : Step → List Record
  | .table _ => []
  | .record r => [r]
  | .records rs => rs

theorem batch_addRecord (i : Insert) (r : Record) : (i.addRecord r).batch = i.batch.attempt r := by
  rw [addRecord, Batch.attempt]
  cases i.batch.add r <;> rfl

/-- A step offers its records one by one. Those that are refused do not keep the others out. -/
theorem batch_apply (i : Insert) (step : Step) :
    (i.apply step).batch = step.offered.foldl Batch.attempt i.batch := by
  cases step with
  | table name => rfl
  | record r => exact i.batch_addRecord r
  | records rs =>
    show (rs.foldl addRecord i).batch = rs.foldl Batch.attempt i.batch
    induction rs generalizing i with
    | nil => rfl
    | cons r rest ih => rw [List.foldl_cons, List.foldl_cons, ih, batch_addRecord]

/-- Whatever the steps were, the batch of an INSERT comes from offering records to the empty one. -/
theorem reachable_batch (table : String) {steps : List Step}
    (h : ∀ step ∈ steps, ∀ r ∈ step.offered, r.Reachable) : (ofSteps table steps).batch.Reachable := by
  have hoffered (step : Step) (hstep : step ∈ steps) {b : Batch} (hb : b.Reachable) :
      (step.offered.foldl Batch.attempt b).Reachable :=
    List.foldlRecOn (motive := Batch.Reachable) step.offered Batch.attempt hb
      fun _ hb r hr => .attempt hb (h step hstep r hr)
  have hstart : (into table).batch.Reachable := .empty
  refine List.foldlRecOn (motive := fun i => i.batch.Reachable) steps apply hstart ?_
  intro i hi step hstep
  rw [batch_apply]
  exact hoffered step hstep hi

end Insert

end BoundSql
