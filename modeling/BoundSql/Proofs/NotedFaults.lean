import BoundSql.Proofs.Composition
import BoundSql.Proofs.Rejection

/-!
# `BoundSql.Proofs.NotedFaults` — noted faults stay, and are reported

A caller who has made a mistake goes on with other steps, and learns of the mistake from a rendering. The
fault has to survive until then, also where a predicate or a column has become a part of something larger,
and the rendering must not look past it.

## Contents
- **`Node.KeepsFaults`** compares the slots of a node before and after a step, at every depth, and
  `Node.keepsFaults_of_parts` goes one level down.
- **One step.** `Predicate.keepsFaults_apply`, `CaseColumn.keepsFaults_apply`, `Query.part?_edit` and
  **`Select.notedAt_apply`**; `Select.Replaces` is the one way to lose a slot, together with what it belongs to.
- **`Part.renderAfter_of_noted`** is what a rendering makes of a slot that is filled.
- **`rejected_steps_are_atomic`** is the law of all builders.
-/

namespace BoundSql

/-! ## Noted faults stay -/

namespace Node

variable {n m k : Node}

/-- Every fault noted in a node, at whatever depth, is noted at the end of the same ways in the other one. -/
def KeepsFaults (n m : Node) : Prop :=
  ∀ ways f, n.notedAt ways = some f → m.notedAt ways = some f

theorem KeepsFaults.refl (n : Node) : n.KeepsFaults n := by
  intro ways f h
  exact h

theorem KeepsFaults.trans (h : n.KeepsFaults m) (h' : m.KeepsFaults k) : n.KeepsFaults k := by
  intro ways f hf
  exact h' ways f (h ways f hf)

/-- It is enough to look at the slot of the node itself, and at its parts. -/
theorem keepsFaults_of_parts (hown : ∀ f, n.noted = some f → m.noted = some f)
    (hparts : ∀ way c, n.part? way = some c → ∃ d, m.part? way = some d ∧ c.KeepsFaults d) :
    n.KeepsFaults m := by
  intro ways f hf
  cases ways with
  | nil => exact hown f hf
  | cons way rest =>
    obtain ⟨c, hc, hfault⟩ := Option.bind_eq_some_iff.mp hf
    obtain ⟨d, hd, hkeeps⟩ := hparts way c hc
    show (m.part? way).bind (notedAt rest) = some f
    rw [hd]
    exact hkeeps rest f hfault

/-- Nodes in a row keep their places and their faults. Others may come behind them. -/
def KeepEach (ns ms : List Node) : Prop :=
  ∀ (i : Nat) (n : Node), ns[i]? = some n → ∃ m : Node, ms[i]? = some m ∧ n.KeepsFaults m

/-- Nodes that keep their faults one by one keep them in a row. -/
theorem keepEach_of_forall₂ {ns ms : List Node} (h : List.Forall₂ KeepsFaults ns ms) (added : List Node) :
    KeepEach ns (ms ++ added) := by
  induction h with
  | nil => nofun
  | @cons n m ns ms hkeeps _ ih =>
    intro i a ha
    cases i with
    | zero =>
      cases ha
      exact ⟨m, rfl, hkeeps⟩
    | succ j => exact ih j a ha

theorem keepEach_append (ns added : List Node) : KeepEach ns (ns ++ added) :=
  keepEach_of_forall₂ (List.forall₂_same.mpr fun n _ => .refl n) added

end Node

open Node

/-! ### Predicates and columns -/

namespace Predicate

/-- No step takes a term away. -/
theorem terms_isPrefix_apply (p : Predicate) (step : Step) : p.terms <+: (p.apply step).terms := by
  cases step with
  | negate => exact List.prefix_rfl
  | add role e =>
    show p.terms <+: (p.push role e).terms
    cases h : extend p.chain role e with
    | error f =>
      rw [push_of_error h]
      exact List.prefix_rfl
    | ok c =>
      obtain ⟨t, -, hterms⟩ := terms_push h
      exact ⟨[t], hterms.symm⟩

theorem keepsFaults_apply (p : Predicate) (step : Step) :
    (predicate p).KeepsFaults (predicate (p.apply step)) := by
  refine keepsFaults_of_parts (fun f h => fault_apply h step) ?_
  intro way c hc
  cases way with
  | term k =>
    obtain ⟨added, hadded⟩ := p.terms_isPrefix_apply step
    rw [part?_term] at hc ⊢
    rw [← hadded, List.map_append]
    exact keepEach_append _ _ k c hc
  | query _ | column _ | source | join _ | filter | having | guard _ | inner => cases hc

theorem keepsFaults_applyAll (p : Predicate) (steps : List Step) :
    (predicate p).KeepsFaults (predicate (p.applyAll steps)) := by
  induction steps generalizing p with
  | nil => exact .refl _
  | cons step rest ih => exact (p.keepsFaults_apply step).trans (ih (p.apply step))

end Predicate

namespace CaseColumn

/-- The guard that a step adds. -/
def Step.guards : Step → List Predicate
  | .branch guard => [guard]
  | .result _ _ | .otherwise _ _ | .label _ => []

/-- A step adds its guard behind the others, and changes none of them. -/
theorem guards_apply (c : CaseColumn) (step : Step) :
    (c.apply step).branches.map (·.guard) = c.branches.map (·.guard) ++ step.guards := by
  rw [apply]
  cases step with
  | branch guard =>
    show (c.branches ++ [(⟨guard, none⟩ : Branch)]).map _ = _
    rw [List.map_append]
    rfl
  | label s => exact (List.append_nil _).symm
  | otherwise v quoted =>
    rw [edit]
    cases CaseResult.of v quoted with
    | ok r => exact (List.append_nil _).symm
    | error f => exact (List.append_nil _).symm
  | result v quoted =>
    rw [edit, giveResult]
    cases hlast : c.branches.getLast? with
    | none => exact (List.append_nil _).symm
    | some b =>
      cases CaseResult.of v quoted with
      | error f => exact (List.append_nil _).symm
      | ok r =>
        obtain ⟨front, hfront⟩ := List.getLast?_eq_some_iff.mp hlast
        show (c.branches.dropLast ++ [{ b with result := some r }]).map _ = c.branches.map _ ++ []
        simp [hfront]

theorem keepsFaults_apply (c : CaseColumn) (step : Step) :
    (column (.case c)).KeepsFaults (column (.case (c.apply step))) := by
  refine keepsFaults_of_parts (fun f h => fault_apply h step) ?_
  intro way d hd
  cases way with
  | guard k =>
    rw [part?_guard] at hd ⊢
    rw [guards_apply, List.map_append]
    exact keepEach_append _ _ k d hd
  | query _ | column _ | source | join _ | filter | having | term _ | inner => cases hd

theorem keepsFaults_applyAll (c : CaseColumn) (steps : List Step) :
    (column (.case c)).KeepsFaults (column (.case (steps.foldl apply c))) := by
  induction steps generalizing c with
  | nil => exact .refl _
  | cons step rest ih => exact (c.keepsFaults_apply step).trans (ih (c.apply step))

end CaseColumn

namespace Column

/-- A label changes nothing else. -/
theorem keepsFaults_relabel (c : Column) (label : String) :
    (column c).KeepsFaults (column (c.relabel label)) := by
  have hown (f : Fault) (h : (column c).noted = some f) : (column (c.relabel label)).noted = some f := by
    cases c <;> exact h
  refine keepsFaults_of_parts hown ?_
  intro way d hd
  refine ⟨d, ?_, .refl d⟩
  cases c <;> cases way <;> exact hd

theorem keepsFaults_of_becomes {e : Edit} {c d : Column} (h : Becomes e c d) :
    (column c).KeepsFaults (column d) := by
  cases h with
  | same => exact .refl _
  | relabelled label => exact c.keepsFaults_relabel label
  | stepped _ => exact CaseColumn.keepsFaults_apply _ _
  | ordered =>
    -- An aggregate has neither a slot nor parts.
    refine keepsFaults_of_parts nofun ?_
    intro way d hd
    cases way <;> cases hd

end Column

/-! ### Queries -/

/-- The part of a query that an edit puts another one in the place of. -/
inductive Edit.Replaces : Edit → Way → Prop where
  | source {s : Source} {label : Option String} : Replaces (.source s label) .source
  | having {p : Predicate} : Replaces (.having p) .having

namespace Query

variable {q q' : Query} {e : Edit}

/-- The columns keep their places and their faults. -/
theorem keepEach_columns (h : q.edit e = .ok q') :
    KeepEach (q.columns.map column) (q'.columns.map column) := by
  obtain ⟨kept, added, hcolumns, hkept, -⟩ := columns_edit h
  rw [hcolumns, List.map_append]
  refine keepEach_of_forall₂ ?_ (added.map column)
  rw [List.forall₂_map_left_iff, List.forall₂_map_right_iff]
  exact hkept.imp fun _ _ => Column.keepsFaults_of_becomes

/-- The targets of joins keep their places. -/
theorem keepEach_joins (h : q.edit e = .ok q') :
    KeepEach ((q.joins.map (·.target)).map Node.source) ((q'.joins.map (·.target)).map Node.source) := by
  rw [targets_edit h, List.map_append]
  exact keepEach_append _ _

/-- A part of a query keeps its place and its faults, unless the edit puts another one there. -/
theorem part?_edit (h : q.edit e = .ok q') {way : Way} (hway : ¬ e.Replaces way) {c : Node}
    (hc : (query q).part? way = some c) : ∃ d, (query q').part? way = some d ∧ c.KeepsFaults d := by
  cases way with
  | column j =>
    rw [part?_column] at hc ⊢
    exact keepEach_columns h j c hc
  | join j =>
    rw [part?_join] at hc ⊢
    exact keepEach_joins h j c hc
  | filter =>
    cases hc
    refine ⟨predicate q'.filter, rfl, ?_⟩
    rw [filter_edit h]
    exact q.filter.keepsFaults_applyAll _
  | source =>
    refine ⟨c, ?_, .refl c⟩
    show q'.source.map Node.source = some c
    rcases source_edit h with ⟨s, label, rfl, -⟩ | hsame
    · exact absurd .source hway
    · rw [hsame]
      exact hc
  | having =>
    refine ⟨c, ?_, .refl c⟩
    show q'.having.map predicate = some c
    rcases (grouping_edit h).2 with ⟨p, rfl, -, -⟩ | hsame
    · exact absurd .having hway
    · rw [hsame]
      exact hc
  | query _ | guard _ | term _ | inner => cases hc

/-- A fault noted in a query stays, unless the edit replaces what it is noted on. -/
theorem notedAt_edit (h : q.edit e = .ok q') {ways : List Way} {f : Fault}
    (hf : (query q).notedAt ways = some f) (hways : ∀ way ∈ ways.head?, ¬ e.Replaces way) :
    (query q').notedAt ways = some f := by
  cases ways with
  | nil => cases hf
  | cons way rest =>
    obtain ⟨c, hc, hfault⟩ := Option.bind_eq_some_iff.mp hf
    obtain ⟨d, hd, hkeeps⟩ := part?_edit h (hways way rfl) hc
    show ((query q').part? way).bind (notedAt rest) = some f
    rw [hd]
    exact hkeeps rest f hfault

end Query

/-! ### A whole `Select` -/

namespace Select

variable {s : Select} {step : Step} {ways : List Way} {f : Fault}

/-- What stands at the end of the ways is no part of the `Select` after the step: it is the source or the
    predicate of HAVING of the query under the cursor, or stands in one of them, and the step brings in
    another one. -/
inductive Replaces (s : Select) : Step → List Way → Prop where
  | edit {q q' : Query} {e : Edit} {way : Way} {rest : List Way} (hq : s.current? = some q)
      (he : q.edit e = .ok q') (h : e.Replaces way) :
      Replaces s (.edit e) (.query s.cursor :: way :: rest)

theorem notedAt_query_iff {i : Nat} {rest : List Way} :
    (Node.select s).notedAt (.query i :: rest) = some f ↔
      ∃ q, s.queries[i]? = some q ∧ (query q).notedAt rest = some f := by
  show ((s.queries[i]?).map query).bind (notedAt rest) = some f ↔ _
  cases s.queries[i]? <;> simp

/-- **Noted faults are sticky.** A step clears none and changes none, at whatever depth. -/
theorem notedAt_apply (hf : (Node.select s).notedAt ways = some f) (hways : ¬ s.Replaces step ways) :
    (Node.select (s.apply step)).notedAt ways = some f := by
  cases ways with
  | nil => exact fault_apply hf step
  | cons way rest =>
    cases way with
    | column _ | source | join _ | filter | having | guard _ | term _ | inner => cases hf
    | query i =>
      obtain ⟨q, hq, hnoted⟩ := notedAt_query_iff.mp hf
      obtain ⟨hlt, -⟩ := List.getElem?_eq_some_iff.mp hq
      cases step with
      | root => exact hf
      | union k =>
        refine notedAt_query_iff.mpr ⟨q, ?_, hnoted⟩
        show (s.unite k).queries[i]? = some q
        rw [queries_unite, List.getElem?_append_left hlt, hq]
      | edit e =>
        rcases s.apply_edit_cases e with ⟨-, hsame⟩ | ⟨r, g, -, -, hnote⟩ | ⟨r, r', hcurrent, hedit, hchange⟩
        · rw [hsame]
          exact hf
        · rw [hnote]
          exact notedAt_query_iff.mpr ⟨q, hq, hnoted⟩
        · rw [hchange]
          by_cases hi : s.cursor = i
          · -- The query under the cursor is the edited one.
            subst hi
            obtain rfl : r = q := Option.some_inj.mp (hcurrent.symm.trans hq)
            refine notedAt_query_iff.mpr ⟨r', ?_, ?_⟩
            · rw [queries_replaceCurrent, List.getElem?_set_self hlt]
            · refine Query.notedAt_edit hedit hnoted ?_
              intro way hway hreplaces
              obtain ⟨rest', rfl⟩ := List.head?_eq_some_iff.mp hway
              exact hways (.edit hcurrent hedit hreplaces)
          · refine notedAt_query_iff.mpr ⟨q, ?_, hnoted⟩
            rw [queries_replaceCurrent, List.getElem?_set_ne hi, hq]

/-- The steps leave what stands at the end of the ways a part of the `Select`. -/
def Leaves : Select → List Step → List Way → Prop
  | _, [], _ => True
  | s, step :: rest, ways => ¬ s.Replaces step ways ∧ (s.apply step).Leaves rest ways

theorem notedAt_applyAll {steps : List Step} (hf : (Node.select s).notedAt ways = some f)
    (hways : s.Leaves steps ways) : (Node.select (s.applyAll steps)).notedAt ways = some f := by
  induction steps generalizing s with
  | nil => exact hf
  | cons step rest ih => exact ih (notedAt_apply hf hways.1) hways.2

/-- Only the source and the predicate of HAVING are ever replaced. -/
theorem leaves_of_ne (s : Select) (steps : List Step)
    (h : ∀ i rest, ways ≠ .query i :: .source :: rest ∧ ways ≠ .query i :: .having :: rest) :
    s.Leaves steps ways := by
  have hkept (s : Select) (step : Step) : ¬ s.Replaces step ways := by
    rintro ⟨-, -, hreplaces⟩
    cases hreplaces with
    | source => exact (h _ _).1 rfl
    | having => exact (h _ _).2 rfl
  induction steps generalizing s with
  | nil => trivial
  | cons step rest ih => exact ⟨hkept s step, ih (s.apply step)⟩

end Select

/-! ### INSERT -/

namespace Insert

variable {i : Insert} {f : Fault}

/-- A record that the batch refuses leaves its fault behind, and nothing else. -/
theorem addRecord_of_error {r : Record} (h : i.batch.add r = .error f) :
    i.addRecord r = if i.fault = none then { i with fault := some f } else i := by
  rw [addRecord, h]
  obtain ⟨table, batch, fault⟩ := i
  cases fault <;> rfl

/-- Only a record that the batch refuses notes a fault. -/
theorem fault_addRecord_eq_some_iff {r : Record} (hi : i.fault = none) :
    (i.addRecord r).fault = some f ↔ i.batch.add r = .error f := by
  rw [addRecord]
  cases i.batch.add r with
  | ok b =>
    show i.fault = some f ↔ _
    rw [hi]
    exact iff_of_false nofun nofun
  | error g => exact keepFirst_eq_some_iff hi

theorem fault_apply (h : i.fault = some f) (step : Step) : (i.apply step).fault = some f := by
  cases step with
  | table name => exact h
  | record r => exact fault_addRecord h r
  | records rs =>
    show (rs.foldl addRecord i).fault = some f
    induction rs generalizing i with
    | nil => exact h
    | cons r rest ih => exact ih (fault_addRecord h r)

theorem fault_applyAll (h : i.fault = some f) (steps : List Step) :
    (steps.foldl apply i).fault = some f := by
  induction steps generalizing i with
  | nil => exact h
  | cons step rest ih => exact ih (fault_apply h step)

/-- Why a step is rejected: the batch refuses the record, or, of several records, one in front of which it
    refused none. -/
inductive Rejects (i : Insert) : Step → Fault → Prop where
  | record {r : Record} {f : Fault} (h : i.batch.add r = .error f) : i.Rejects (.record r) f
  | records (front : List Record) {r : Record} {rest : List Record} {f : Fault}
      (hfront : ((front.map Step.record).foldl apply i).fault = none)
      (h : ((front.map Step.record).foldl apply i).batch.add r = .error f) :
      i.Rejects (.records (front ++ r :: rest)) f

/-- Records that are added one by one note the fault of the first one that is refused. -/
theorem fault_records_eq_some_iff {rs : List Record} (hi : i.fault = none) :
    ((rs.map Step.record).foldl apply i).fault = some f ↔ i.Rejects (.records rs) f := by
  constructor
  · intro h
    induction rs generalizing i with
    | nil => exact nomatch hi.symm.trans h
    | cons r rest ih =>
      cases hr : (i.addRecord r).fault with
      | none =>
        -- The record was added, so the one to blame is behind it.
        cases ih hr h with
        | records front hfront hadd => exact .records (r :: front) hfront hadd
      | some g =>
        have hg : ((rest.map Step.record).foldl apply (i.addRecord r)).fault = some g :=
          fault_applyAll hr _
        obtain rfl : g = f := Option.some.inj (hg.symm.trans h)
        exact .records [] hi ((fault_addRecord_eq_some_iff hi).mp hr)
  · intro h
    cases h with
    | records front hfront hadd =>
      rw [List.map_append, List.foldl_append, List.map_cons, List.foldl_cons]
      exact fault_applyAll ((fault_addRecord_eq_some_iff hfront).mpr hadd) _

/-- A step notes a fault for these reasons and no others. -/
theorem fault_apply_eq_some_iff {step : Step} (hi : i.fault = none) :
    (i.apply step).fault = some f ↔ i.Rejects step f := by
  cases step with
  | table name =>
    show i.fault = some f ↔ _
    rw [hi]
    exact iff_of_false nofun nofun
  | record r =>
    show (i.addRecord r).fault = some f ↔ _
    rw [fault_addRecord_eq_some_iff hi]
    constructor
    · exact .record
    · rintro ⟨h⟩
      exact h
  | records rs =>
    rw [apply_records]
    exact fault_records_eq_some_iff hi

end Insert

/-! ## Noted faults are reported -/

/-- The fault in the slot of a part that steps are made on. -/
def Part.noted : Part → Option Fault
  | predicate p => p.fault
  | column (.case c) => c.fault
  | statement (.select s) => s.fault
  | statement (.insert i) => i.fault
  | _ => none

/-- A part with a fault in its slot is not looked at any further. -/
theorem Part.script_of_noted {x : Part} {f : Fault} (h : x.noted = some f) : x.script = [.fault f] := by
  cases x with
  | predicate p => exact Predicate.script_of_fault h
  | column c =>
    cases c with
    | case c =>
      obtain ⟨branches, otherwise, label, fault⟩ := c
      cases h
      rw [Part.script, Column.script, CaseColumn.script]
    | plain name label | aggregate a => cases h
  | statement s =>
    cases s with
    | select s =>
      obtain ⟨head, unions, cursor, fault⟩ := s
      cases h
      rw [Part.script, Statement.script, Select.script]
    | insert i =>
      have hfault : i.fault = some f := h
      show i.script = [.fault f]
      rw [Insert.script, hfault]
    | update u | delete d => cases h
  | comparison c | assignment a | join j | batch b => cases h

theorem Part.renderAfter_of_noted {x : Part} {f : Fault} (h : x.noted = some f)
    (earlier : List BoundParam) : x.renderAfter earlier = ⟨.error f, earlier⟩ := by
  rw [Part.renderAfter, Part.script_of_noted h, Script.renderAfter_eq]
  show (⟨.error f, earlier ++ []⟩ : Rendering) = ⟨.error f, earlier⟩
  rw [List.append_nil]

/-! ## The law of all builders -/

/-- **Rejected steps are atomic, and noted faults are sticky.** For a predicate, a CASE, a `Select` and an
    INSERT in any state:
    * A step is rejected for the listed reasons and no others.
    * A rejected step fills a slot that was empty, or does nothing. Several records given to an INSERT at once
      are one step each: those that fit are added, and each of the others is rejected by itself.
    * No later steps clear or change a noted fault, at whatever depth, as long as what it is noted on is not
      replaced as a whole. This can happen in FROM and HAVING only.
    * A rendering of what has a fault in its own slot returns this fault, and binds nothing. -/
theorem rejected_steps_are_atomic :
    ((∀ (p : Predicate) (step : Predicate.Step) (f : Fault), p.fault = none →
        ((p.apply step).fault = some f ↔ p.Rejects step f)) ∧
      (∀ (c : CaseColumn) (step : CaseColumn.Step) (f : Fault), c.fault = none →
        ((c.apply step).fault = some f ↔ c.Rejects step f)) ∧
      (∀ (s : Select) (step : Select.Step) (f : Fault), s.fault = none →
        ((s.apply step).fault = some f ↔ s.Rejects step .own f)) ∧
      ∀ (i : Insert) (step : Insert.Step) (f : Fault), i.fault = none →
        ((i.apply step).fault = some f ↔ i.Rejects step f)) ∧
    ((∀ (p : Predicate) (step : Predicate.Step) (f : Fault), p.Rejects step f →
        p.apply step = if p.fault = none then { p with fault := some f } else p) ∧
      (∀ (c : CaseColumn) (step : CaseColumn.Step) (f : Fault), c.Rejects step f →
        c.apply step = if c.fault = none then { c with fault := some f } else c) ∧
      (∀ (s : Select) (step : Select.Step) (slot : Slot) (f : Fault), s.Rejects step slot f →
        s.apply step = (if s.noted slot = none then s.withNoted f slot else s) ∧
          (s.apply step).noted slot = some ((s.noted slot).getD f)) ∧
      (∀ (i : Insert) (r : Record) (f : Fault), i.Rejects (.record r) f →
        i.apply (.record r) = if i.fault = none then { i with fault := some f } else i) ∧
      ∀ (i : Insert) (rs : List Record),
        i.apply (.records rs) = (rs.map Insert.Step.record).foldl Insert.apply i) ∧
    ((∀ (p : Predicate) (steps : List Predicate.Step),
        (predicate p).KeepsFaults (predicate (p.applyAll steps))) ∧
      (∀ (c : CaseColumn) (steps : List CaseColumn.Step),
        (column (.case c)).KeepsFaults (column (.case (steps.foldl CaseColumn.apply c)))) ∧
      (∀ (s : Select) (steps : List Select.Step),
        (∀ ways : List Way,
          (∀ i rest, ways ≠ .query i :: .source :: rest ∧ ways ≠ .query i :: .having :: rest) →
            s.Leaves steps ways) ∧
          ∀ (ways : List Way) (f : Fault), (select s).notedAt ways = some f → s.Leaves steps ways →
            (select (s.applyAll steps)).notedAt ways = some f) ∧
      ∀ (i : Insert) (steps : List Insert.Step) (f : Fault), i.fault = some f →
        (steps.foldl Insert.apply i).fault = some f) ∧
    ∀ (x : Part) (f : Fault) (earlier : List BoundParam), x.noted = some f →
      x.renderAfter earlier = ⟨.error f, earlier⟩ := by
  refine ⟨⟨?_, ?_, ?_, ?_⟩, ⟨?_, ?_, ?_, ?_, ?_⟩, ⟨?_, ?_, ?_, ?_⟩, ?_⟩
  · intro p step f hp
    exact Predicate.fault_apply_eq_some_iff hp
  · intro c step f hc
    exact CaseColumn.fault_apply_eq_some_iff hc
  · intro s step f hs
    exact Select.fault_apply_eq_some_iff hs
  · intro i step f hi
    exact Insert.fault_apply_eq_some_iff hi
  · intro p step f h
    rw [Predicate.apply_of_rejects h]
    exact p.note_eq_ite f
  · intro c step f h
    rw [CaseColumn.apply_of_rejects h]
    exact c.note_eq_ite f
  · intro s step slot f h
    exact ⟨Select.apply_of_rejects h, Select.noted_apply_of_rejects h⟩
  · rintro i r f ⟨h⟩
    exact Insert.addRecord_of_error h
  · exact Insert.apply_records
  · exact Predicate.keepsFaults_applyAll
  · exact CaseColumn.keepsFaults_applyAll
  · intro s steps
    exact ⟨fun ways => s.leaves_of_ne steps, fun ways f => Select.notedAt_applyAll⟩
  · intro i steps f h
    exact Insert.fault_applyAll h steps
  · intro x f earlier h
    exact Part.renderAfter_of_noted h earlier

/-- A query whose first term was joined to nothing, behind a CASE with a guard that has a fault, too. -/
def staleOrders : Select :=
  .ofSteps
    [.edit (.column (.case .empty)),
      .edit (.onCase (.branch (.ofSteps [.add .first (.comparison "day" "<>" .null false)]))),
      .edit (.filter (.add (.joined .and) (.comparison "day" ">" .null false)))]

/-- Records for a log. Each has another column than the one before it, and the last one has none. -/
def logRecords : List Record :=
  [.ofList [("day", .null)], .ofList [("host", .null)], .empty]

/-- An unknown operator changes nothing about `staleOrders`, and what is noted there outlasts other steps. Of
    the `logRecords` the first one is added, and the second one is the first that is refused. -/
theorem rejected_steps_are_atomic_staleOrders :
    (staleOrders.Rejects (.edit (.filter (.add .first (.comparison "day" "==" .null false)))) (.filter 0)
        (.unknownOperator "==") ∧
      staleOrders.noted (.filter 0) = some (.nothingToJoin .and) ∧
      (select staleOrders).notedAt [.query 0, .column 0, .guard 0] = some (.unknownOperator "<>")) ∧
      staleOrders.apply (.edit (.filter (.add .first (.comparison "day" "==" .null false)))) = staleOrders ∧
        (staleOrders.applyAll [.edit (.onCase (.branch .empty)), .edit (.labels ["late"]), .union .all]).noted
          (.filter 0) = some (.nothingToJoin .and) ∧
        (select (staleOrders.applyAll
            [.edit (.onCase (.branch .empty)), .edit (.labels ["late"]), .union .all])).notedAt
          [.query 0, .column 0, .guard 0] = some (.unknownOperator "<>") ∧
        ((Insert.into "log").apply (.records logRecords)).fault = some .columnsDiffer ∧
        (Insert.into "log").apply (.records logRecords) =
          { Insert.into "log" with batch := ⟨["day"], [[.null]]⟩, fault := some .columnsDiffer } := by
  have hrejects : staleOrders.Rejects (.edit (.filter (.add .first (.comparison "day" "==" .null false))))
      (.filter 0) (.unknownOperator "==") :=
    .filter rfl (.unknownOperator rfl (by intro op; cases op <;> decide))
  have hnoted : staleOrders.noted (.filter 0) = some (.nothingToJoin .and) := by
    rfl
  have hguard : (select staleOrders).notedAt [.query 0, .column 0, .guard 0] =
      some (.unknownOperator "<>") := by
    rfl
  obtain ⟨⟨-, -, -, hwhy⟩, ⟨-, -, hatomic, -, hseries⟩, ⟨-, -, hsticky, -⟩, -⟩ :=
    rejected_steps_are_atomic
  have hsame := (hatomic staleOrders _ (.filter 0) _ hrejects).1
  rw [hnoted, if_neg (Option.some_ne_none _)] at hsame
  obtain ⟨hleaves, hkept⟩ :=
    hsticky staleOrders [.edit (.onCase (.branch .empty)), .edit (.labels ["late"]), .union .all]
  have hrefused : (Insert.into "log").Rejects (.records logRecords) .columnsDiffer :=
    .records [.ofList [("day", .null)]] rfl rfl
  exact ⟨⟨hrejects, hnoted, hguard⟩, hsame, hkept _ _ hnoted (hleaves _ fun _ _ => ⟨nofun, nofun⟩),
    hkept _ _ hguard (hleaves _ fun _ _ => ⟨nofun, nofun⟩), (hwhy _ _ _ rfl).mpr hrefused,
    (hseries _ logRecords).trans rfl⟩

end BoundSql
