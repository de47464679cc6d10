import BoundSql.Proofs.Edits
import BoundSql.Proofs.Filtering
import BoundSql.Proofs.Places

/-!
# `BoundSql.Proofs.Rejection` — what a rejected step does

Steps do not fail. One that does not fit is rejected: its fault goes into a slot, of the predicate, CASE or
statement that it acts on, and a rendering reports it later. A step that was half carried out before it was
found not to fit would leave a statement that nobody asked for: a connective without its term, a list of
columns without its row. So a rejected step must not do anything else.

## Contents
- **`Predicate.Rejects`**, **`CaseColumn.Rejects`**, **`Query.Rejects`** list the reasons, and an iff each
  says that the list is complete.
- **`Way`** leads from a node to one of its parts; `Node.notedAt` reads the slot at the end of ways.
- **`Slot`** is one of the three places where a step on a `Select` can note a fault; **`Select.Rejects`**
  says into which one a rejected step does.
- **`Select.apply_of_rejects`** is all that a rejected step on a `Select` does.
-/

namespace BoundSql

/-! ## Reasons -/

/-- The role of a term is the one for its place: the first term opens a predicate, all others are
    joined. -/
def Role.Fits (p : Predicate) : Role → Prop
  | .first => p.terms = []
  | .joined _ => p.terms ≠ []

/-- Why a step on a predicate is rejected. The role of a term is looked at before its operator. -/
inductive Predicate.Rejects (p : Predicate) : Step → Fault → Prop where
  | started {e : Entry} (h : p.terms ≠ []) : Rejects p (.add .first e) .predicateStarted
  | nothingToJoin {k : Connective} {e : Entry} (h : p.terms = []) :
      Rejects p (.add (.joined k) e) (.nothingToJoin k)
  | unknownOperator {role : Role} {field operator : String} {operand : Operand} {negated : Bool}
      (hrole : role.Fits p) (h : ∀ op : Operator, op.text ≠ operator) :
      Rejects p (.add role (.comparison field operator operand negated)) (.unknownOperator operator)

/-- Why a step on a CASE is rejected: there is no branch to give a result to, or the value is an infinity
    or a NaN. -/
inductive CaseColumn.Rejects (c : CaseColumn) : Step → Fault → Prop where
  | noBranch {v : Value} {quoted : Bool} (h : c.branches = []) :
      Rejects c (.result v quoted) .noBranch
  | result {x : Double} {quoted : Bool} (h : c.branches ≠ []) (hx : x.isFinite = false) :
      Rejects c (.result (.float x) quoted) (.notFinite x)
  | otherwise {x : Double} {quoted : Bool} (hx : x.isFinite = false) :
      Rejects c (.otherwise (.float x) quoted) (.notFinite x)

/-- Why an edit of a query is rejected. -/
inductive Query.Rejects (q : Query) : Edit → Fault → Prop where
  | tooManyAliases {labels : List String} (h : q.columns.length < labels.length) :
      Rejects q (.labels labels) .tooManyAliases
  | noColumn {order : List String} (h : q.columns = []) :
      Rejects q (.withinGroup order) .noColumnToGroup
  | notAggregate {order : List String} {c : Column} (hc : q.columns.getLast? = some c)
      (h : ∀ a, c ≠ .aggregate a) : Rejects q (.withinGroup order) .lastNotAggregate
  | notListagg {order : List String} {a : Aggregate} (ha : q.columns.getLast? = some (.aggregate a))
      (h : a.function ≠ .listagg) : Rejects q (.withinGroup order) .lastNotListagg
  | notCase {s : CaseColumn.Step} (h : ∀ c, q.columns.getLast? ≠ some (.case c)) :
      Rejects q (.onCase s) .lastNotCase
  | noJoin {p : ColumnPair} (h : q.joins = []) : Rejects q (.joinCondition p) .noJoin
  | emptyGroupBy : Rejects q (.groupBy []) .emptyGroupBy
  | havingWithoutGroupBy {p : Predicate} (h : q.groupBy = []) :
      Rejects q (.having p) .havingWithoutGroupBy

/-- An empty slot takes the fault that a step fails with, and no other. -/
theorem keepFirst_eq_some_iff {α : Type} {slot : Option Fault} {f g : Fault} (h : slot = none) :
    keepFirst slot g = some f ↔ (.error g : Except Fault α) = .error f := by
  rw [h, keepFirst_none, Option.some_inj, Except.error.injEq]

/-! ### Predicates -/

namespace Predicate

variable {p : Predicate} {step : Step} {f : Fault}

theorem chain_eq_none_iff : p.chain = none ↔ p.terms = [] := by
  cases hc : p.chain with
  | none => simp [terms, hc]
  | some c => simp [terms, hc, Chain.terms]

end Predicate

theorem Entry.term_eq_error_iff {e : Entry} {f : Fault} :
    e.term = .error f ↔
      ∃ field operator operand negated, e = .comparison field operator operand negated ∧
        (∀ op : Operator, op.text ≠ operator) ∧ f = .unknownOperator operator := by
  cases e with
  | group p negated =>
    constructor
    · intro h
      cases h
    · rintro ⟨field, operator, operand, negated, he, -⟩
      cases he
  | comparison field operator operand negated =>
    rw [Entry.term, Operator.read]
    cases hop : Operator.ofText? operator with
    | some op =>
      have htext : op.text = operator := Operator.text_of_ofText? hop
      constructor
      · intro h
        cases h
      · rintro ⟨_, _, _, _, he, hne, -⟩
        cases he
        exact absurd htext (hne op)
    | none =>
      have hne : ∀ op : Operator, op.text ≠ operator := by
        rintro op rfl
        rw [Operator.ofText?_text] at hop
        cases hop
      constructor
      · intro h
        cases h
        exact ⟨_, _, _, _, rfl, hne, rfl⟩
      · rintro ⟨_, _, _, _, he, -, rfl⟩
        cases he
        rfl

namespace Predicate

variable {p : Predicate} {step : Step} {f : Fault}

/-- A term is refused exactly for the listed reasons. -/
theorem extend_eq_error_iff {role : Role} {e : Entry} :
    extend p.chain role e = .error f ↔ p.Rejects (.add role e) f := by
  -- Where the role fits, only the operator can be wrong.
  have hunread (hrole : role.Fits p) : e.term = .error f ↔ p.Rejects (.add role e) f := by
    rw [Entry.term_eq_error_iff]
    constructor
    · rintro ⟨field, operator, operand, negated, rfl, hne, rfl⟩
      exact .unknownOperator hrole hne
    · intro h
      cases h with
      | started h => exact absurd hrole h
      | nothingToJoin h => exact absurd h hrole
      | unknownOperator _ hne => exact ⟨_, _, _, _, rfl, hne, rfl⟩
  cases hc : p.chain with
  | none =>
    have hterms : p.terms = [] := chain_eq_none_iff.mp hc
    cases role with
    | first =>
      rw [← hunread hterms]
      cases ht : e.term <;> simp [extend, ht]
    | joined k =>
      constructor
      · rintro ⟨⟩
        exact .nothingToJoin hterms
      · intro h
        cases h with
        | nothingToJoin _ => rfl
        | unknownOperator hrole _ => exact absurd hterms hrole
  | some c =>
    have hterms : p.terms ≠ [] := by
      intro hnil
      rw [chain_eq_none_iff.mpr hnil] at hc
      cases hc
    cases role with
    | first =>
      constructor
      · rintro ⟨⟩
        exact .started hterms
      · intro h
        cases h with
        | started _ => rfl
        | unknownOperator hrole _ => exact absurd hrole hterms
    | joined k =>
      rw [← hunread hterms]
      cases ht : e.term <;> simp [extend, ht]

/-- A slot that holds a fault takes no other one. -/
theorem note_eq_ite (p : Predicate) (f : Fault) :
    p.note f = if p.fault = none then { p with fault := some f } else p := by
  obtain ⟨chain, negated, fault⟩ := p
  cases fault <;> rfl

/-- A rejected step does nothing but note its fault. -/
theorem apply_of_rejects (h : p.Rejects step f) : p.apply step = p.note f := by
  cases step with
  | add role e => exact push_of_error (extend_eq_error_iff.mpr h)
  | negate => cases h

/-- Only a rejected step notes a fault. -/
theorem fault_apply_eq_some_iff (hp : p.fault = none) :
    (p.apply step).fault = some f ↔ p.Rejects step f := by
  cases step with
  | negate =>
    show p.fault = some f ↔ _
    rw [hp]
    exact iff_of_false (by rintro ⟨⟩) (by rintro ⟨⟩)
  | add role e =>
    rw [← extend_eq_error_iff, apply, push]
    cases extend p.chain role e with
    | ok c =>
      show p.fault = some f ↔ _
      rw [hp]
      exact iff_of_false (by rintro ⟨⟩) (by rintro ⟨⟩)
    | error g => exact keepFirst_eq_some_iff hp

end Predicate

/-! ### Columns -/

theorem Value.result_eq_error_iff {v : Value} {quoted : Bool} {f : Fault} :
    v.result quoted = .error f ↔ ∃ x : Double, v = .float x ∧ x.isFinite = false ∧ f = .notFinite x := by
  cases v with
  | null | bool b | int i =>
    constructor
    · intro h
      cases h
    · rintro ⟨x, hx, -⟩
      cases hx
  | text s =>
    constructor
    · intro h
      rw [Value.result] at h
      split at h <;> cases h
    · rintro ⟨x, hx, -⟩
      cases hx
  | float x =>
    show Value.literal (.float x) = .error f ↔ _
    rw [Value.literal]
    cases hx : x.isFinite with
    | true =>
      constructor
      · intro h
        cases h
      · rintro ⟨_, ⟨⟩, hfinite, -⟩
        rw [hx] at hfinite
        cases hfinite
    | false =>
      constructor
      · rintro ⟨⟩
        exact ⟨x, rfl, hx, rfl⟩
      · rintro ⟨_, ⟨⟩, -, rfl⟩
        rfl

theorem CaseResult.of_eq_error_iff {v : Value} {quoted : Bool} {f : Fault} :
    CaseResult.of v quoted = .error f ↔
      ∃ x : Double, v = .float x ∧ x.isFinite = false ∧ f = .notFinite x := by
  rw [← @Value.result_eq_error_iff v quoted f, ← map_fragment_of]
  cases CaseResult.of v quoted <;> simp [Except.map]

namespace CaseColumn

variable {c : CaseColumn} {step : Step} {f : Fault}

/-- A step on a CASE is refused exactly for the listed reasons. -/
theorem edit_eq_error_iff : c.edit step = .error f ↔ c.Rejects step f := by
  cases step with
  | branch guard => exact iff_of_false (by rintro ⟨⟩) (by rintro ⟨⟩)
  | label s => exact iff_of_false (by rintro ⟨⟩) (by rintro ⟨⟩)
  | otherwise v quoted =>
    have hof : c.edit (.otherwise v quoted) = .error f ↔ CaseResult.of v quoted = .error f := by
      rw [edit]
      cases CaseResult.of v quoted <;> simp
    rw [hof, CaseResult.of_eq_error_iff]
    constructor
    · rintro ⟨x, rfl, hx, rfl⟩
      exact .otherwise hx
    · rintro ⟨⟩
      exact ⟨_, rfl, ‹_›, rfl⟩
  | result v quoted =>
    cases hlast : c.branches.getLast? with
    | none =>
      have hnil : c.branches = [] := List.getLast?_eq_none_iff.mp hlast
      have hedit : c.edit (.result v quoted) = .error .noBranch := by
        rw [edit, giveResult, hlast]
      rw [hedit]
      constructor
      · rintro ⟨⟩
        exact .noBranch hnil
      · intro h
        cases h with
        | noBranch _ => rfl
        | result hne _ => exact absurd hnil hne
    | some b =>
      have hne : c.branches ≠ [] := by
        intro hnil
        rw [hnil] at hlast
        cases hlast
      have hof : c.edit (.result v quoted) = .error f ↔ CaseResult.of v quoted = .error f := by
        rw [edit, giveResult, hlast]
        cases CaseResult.of v quoted <;> simp
      rw [hof, CaseResult.of_eq_error_iff]
      constructor
      · rintro ⟨x, rfl, hx, rfl⟩
        exact .result hne hx
      · intro h
        cases h with
        | noBranch hnil => exact absurd hnil hne
        | result _ hx => exact ⟨_, rfl, hx, rfl⟩

theorem note_eq_ite (c : CaseColumn) (f : Fault) :
    c.note f = if c.fault = none then { c with fault := some f } else c := by
  obtain ⟨branches, otherwise, label, fault⟩ := c
  cases fault <;> rfl

theorem apply_of_rejects (h : c.Rejects step f) : c.apply step = c.note f := by
  rw [apply, edit_eq_error_iff.mpr h]

/-- A step that is not rejected leaves the slot alone. -/
theorem fault_of_edit {c' : CaseColumn} (h : c.edit step = .ok c') : c'.fault = c.fault := by
  cases step with
  | branch guard | label s =>
    cases h
    rfl
  | result v quoted | otherwise v quoted =>
    simp only [edit] at h
    split at h <;> cases h
    rfl

theorem fault_apply_eq_some_iff (hc : c.fault = none) :
    (c.apply step).fault = some f ↔ c.Rejects step f := by
  rw [← edit_eq_error_iff, apply]
  cases he : c.edit step with
  | ok c' =>
    dsimp only
    rw [fault_of_edit he, hc]
    exact iff_of_false (by rintro ⟨⟩) (by rintro ⟨⟩)
  | error g => exact keepFirst_eq_some_iff hc

end CaseColumn

/-- An order of rows is refused by all columns but LISTAGG. -/
theorem Column.orderWithin_eq_error_iff {c : Column} {order : List String} {f : Fault} :
    c.orderWithin order = .error f ↔
      (∀ a, c ≠ .aggregate a) ∧ f = .lastNotAggregate ∨
        ∃ a, c = .aggregate a ∧ a.function ≠ .listagg ∧ f = .lastNotListagg := by
  cases c with
  | plain name label => simp [orderWithin, eq_comm]
  | case c => simp [orderWithin, eq_comm]
  | aggregate a =>
    by_cases hfunction : a.function = .listagg
    · simp [orderWithin, Aggregate.orderWithin, hfunction]
    · have herror : (aggregate a).orderWithin order = .error .lastNotListagg := by
        rw [orderWithin, Aggregate.orderWithin, if_neg hfunction]
      rw [herror]
      constructor
      · rintro ⟨⟩
        exact .inr ⟨a, rfl, hfunction, rfl⟩
      · rintro (⟨hnot, -⟩ | ⟨-, -, -, rfl⟩)
        · exact absurd rfl (hnot a)
        · rfl

/-! ### Queries -/

namespace Query

variable {q : Query} {e : Edit} {f : Fault}

theorem orderLastWithin_eq_error_iff {order : List String} :
    orderLastWithin q.columns order = .error f ↔ q.Rejects (.withinGroup order) f := by
  cases hlast : q.columns.getLast? with
  | none =>
    have herror : orderLastWithin q.columns order = .error .noColumnToGroup := by
      rw [orderLastWithin, hlast]
    rw [herror]
    constructor
    · rintro ⟨⟩
      exact .noColumn (List.getLast?_eq_none_iff.mp hlast)
    · intro h
      cases h with
      | noColumn _ => rfl
      | notAggregate hc _ | notListagg hc _ =>
        rw [hlast] at hc
        cases hc
  | some c =>
    have hcolumn : orderLastWithin q.columns order = .error f ↔ c.orderWithin order = .error f := by
      simp only [orderLastWithin, hlast]
      cases c.orderWithin order <;> simp
    rw [hcolumn]
    rw [Column.orderWithin_eq_error_iff]
    constructor
    · rintro (⟨hnot, rfl⟩ | ⟨a, rfl, hnot, rfl⟩)
      · exact .notAggregate hlast hnot
      · exact .notListagg hlast hnot
    · intro h
      cases h with
      | noColumn hnil =>
        rw [hnil] at hlast
        cases hlast
      | notAggregate hc hnot =>
        rw [hlast] at hc
        cases hc
        exact .inl ⟨hnot, rfl⟩
      | notListagg ha hnot =>
        rw [hlast] at ha
        cases ha
        exact .inr ⟨_, rfl, hnot, rfl⟩

theorem editLastCase_eq_error_iff {s : CaseColumn.Step} :
    editLastCase q.columns s = .error f ↔ q.Rejects (.onCase s) f := by
  rw [editLastCase]
  split
  · rename_i c hlast
    refine iff_of_false (by rintro ⟨⟩) ?_
    intro h
    cases h with
    | notCase hnot => exact hnot c hlast
  · rename_i hnot
    constructor
    · rintro ⟨⟩
      exact .notCase hnot
    · rintro ⟨⟩
      rfl

theorem conditionLast_eq_error_iff {p : ColumnPair} :
    conditionLast q.joins p = .error f ↔ q.Rejects (.joinCondition p) f := by
  rw [conditionLast]
  cases hlast : q.joins.getLast? with
  | none =>
    constructor
    · rintro ⟨⟩
      exact .noJoin (List.getLast?_eq_none_iff.mp hlast)
    · rintro ⟨⟩
      rfl
  | some j =>
    refine iff_of_false (by rintro ⟨⟩) ?_
    rintro ⟨⟩
    rename_i hnil
    rw [hnil] at hlast
    cases hlast

/-- An edit is refused exactly for the listed reasons. -/
theorem edit_eq_error_iff : q.edit e = .error f ↔ q.Rejects e f := by
  cases e with
  | columns _ | column _ | distinct | source _ _ | join _ _ _ | filter _ | orderBy _ | limit _ | offset _
  | page _ _ => exact iff_of_false (by rintro ⟨⟩) (by rintro ⟨⟩)
  | withinGroup order => exact map_eq_error_iff.trans orderLastWithin_eq_error_iff
  | onCase s => exact map_eq_error_iff.trans editLastCase_eq_error_iff
  | joinCondition p => exact map_eq_error_iff.trans conditionLast_eq_error_iff
  | labels labels =>
    rw [edit, map_eq_error_iff, relabelLast]
    by_cases h : labels.length ≤ q.columns.length
    · rw [if_pos h]
      refine iff_of_false (by rintro ⟨⟩) ?_
      rintro ⟨⟩
      omega
    · rw [if_neg h]
      constructor
      · rintro ⟨⟩
        exact .tooManyAliases (Nat.lt_of_not_le h)
      · rintro ⟨⟩
        rfl
  | groupBy columns =>
    cases columns with
    | cons column rest => exact iff_of_false (by rintro ⟨⟩) (by rintro ⟨⟩)
    | nil =>
      constructor
      · rintro ⟨⟩
        exact .emptyGroupBy
      · rintro ⟨⟩
        rfl
  | having p =>
    rw [edit]
    by_cases h : q.groupBy = []
    · rw [if_pos (List.isEmpty_iff.mpr h)]
      constructor
      · rintro ⟨⟩
        exact .havingWithoutGroupBy h
      · rintro ⟨⟩
        rfl
    · rw [if_neg (mt List.isEmpty_iff.mp h)]
      refine iff_of_false (by rintro ⟨⟩) ?_
      rintro ⟨⟩
      contradiction

end Query

/-! ## Slots of a `Select` -/

/-- Where a step on a `Select` can note a fault: on the `Select` itself, on the predicate of WHERE of one of
    its queries, or on a CASE among the columns of one. -/
inductive Slot where
  | own
  | filter (i : Nat)
  | case (i j : Nat)
  deriving DecidableEq

/-- A step on a `Select` is rejected by the query under the cursor, by the predicate of its WHERE, or by its
    last column; the fault goes into the slot of the one that rejects it. -/
inductive Select.Rejects (s : Select) : Step → Slot → Fault → Prop where
  | own {q : Query} {e : Edit} {f : Fault} (hq : s.current? = some q) (h : q.Rejects e f) :
      Rejects s (.edit e) .own f
  | filter {q : Query} {step : Predicate.Step} {f : Fault} (hq : s.current? = some q)
      (h : q.filter.Rejects step f) : Rejects s (.edit (.filter step)) (.filter s.cursor) f
  | case {q : Query} {c : CaseColumn} {step : CaseColumn.Step} {f : Fault} (hq : s.current? = some q)
      (hc : q.columns.getLast? = some (.case c)) (h : c.Rejects step f) :
      Rejects s (.edit (.onCase step)) (.case s.cursor (q.columns.length - 1)) f

/-- The way from a node to one of its parts. It does not change when other parts are added behind. -/
inductive Way where
  | query (i : Nat)
  | column (j : Nat)
  | source
  | join (j : Nat)
  | filter
  | having
  | guard (k : Nat)
  | term (k : Nat)
  | inner
  deriving DecidableEq

/-- The ways to a slot. -/
def Slot.ways : Slot → List Way
  | .own => []
  | .filter i => [.query i, .filter]
  | .case i j => [.query i, .column j]

namespace Node

/-- The part at the end of a way. -/
def part? : Node → Way → Option Node
  | select s, .query i => s.queries[i]?.map query
  | query q, .column j => q.columns[j]?.map column
  | query q, .source => q.source.map source
  | query q, .join j => q.joins[j]?.map fun j => source j.target
  | query q, .filter => some (predicate q.filter)
  | query q, .having => q.having.map predicate
  | column (.case c), .guard k => c.branches[k]?.map fun b => predicate b.guard
  | predicate p, .term k => p.terms[k]?.map term
  | term (.comparison c), .inner => some (operand c.operator c.operand)
  | term (.group p), .inner => some (predicate p)
  | operand _ (.subquery s), .inner => some (select s)
  | source (.subquery s), .inner => some (select s)
  | _, _ => none

theorem part?_term (p : Predicate) (k : Nat) : (predicate p).part? (.term k) = (p.terms.map term)[k]? := by
  rw [List.getElem?_map]
  rfl

theorem part?_guard (c : CaseColumn) (k : Nat) :
    (column (.case c)).part? (.guard k) = ((c.branches.map (·.guard)).map predicate)[k]? := by
  rw [List.map_map, List.getElem?_map]
  rfl

theorem part?_column (q : Query) (j : Nat) : (query q).part? (.column j) = (q.columns.map column)[j]? := by
  rw [List.getElem?_map]
  rfl

theorem part?_join (q : Query) (j : Nat) :
    (query q).part? (.join j) = ((q.joins.map (·.target)).map source)[j]? := by
  rw [List.map_map, List.getElem?_map]
  rfl

/-- The fault that was noted on a node. -/
def noted : Node → Option Fault
  | statement (.insert i) => i.fault
  | select s => s.fault
  | column (.case c) => c.fault
  | predicate p => p.fault
  | _ => none

/-- The fault that was noted at the end of ways. -/
def notedAt : List Way → Node → Option Fault
  | [], n => n.noted
  | way :: ways, n => (n.part? way).bind (notedAt ways)

end Node

namespace Select

variable {s : Select} {q : Query} {step : Step} {slot : Slot} {f : Fault}

/-- The fault in a slot. -/
def noted (s : Select) (slot : Slot) : Option Fault :=
  (Node.select s).notedAt slot.ways

/-- The `Select` with one of its queries changed. -/
def modifyQuery (s : Select) (i : Nat) (change : Query → Query) : Select :=
  match i with
  | 0 => { s with head := change s.head }
  | i + 1 => { s with unions := s.unions.modify i fun u => { u with query := change u.query } }

/-- The `Select` with a fault in a slot, and with everything else as it was. -/
def withNoted (s : Select) (f : Fault) : Slot → Select
  | .own => { s with fault := some f }
  | .filter i => s.modifyQuery i fun q => { q with filter := { q.filter with fault := some f } }
  | .case i j => s.modifyQuery i fun q =>
    { q with
      columns := q.columns.modify j fun c =>
        match c with
        | .case c => .case { c with fault := some f }
        | c => c }

theorem replaceCurrent_eq_modifyQuery (hq : s.current? = some q) (change : Query → Query) :
    s.replaceCurrent (change q) = s.modifyQuery s.cursor change := by
  obtain ⟨head, unions, cursor, fault⟩ := s
  cases cursor with
  | zero =>
    cases hq
    rfl
  | succ i =>
    have hunion : (unions[i]?).map (·.query) = some q := by
      rw [← List.getElem?_map]
      exact hq
    obtain ⟨u, hu, rfl⟩ := Option.map_eq_some_iff.mp hunion
    have hmodify : (unions.modify i fun v => { v with query := change u.query }) =
        unions.modify i fun v => { v with query := change v.query } := by
      refine List.ext_getElem? fun j => ?_
      rw [List.getElem?_modify, List.getElem?_modify]
      by_cases hj : i = j
      · subst hj
        rw [hu]
        rfl
      · simp [hj]
    exact congrArg (fun unions => (⟨head, unions, i + 1, fault⟩ : Select)) hmodify

/-- The query under the cursor put in its own place changes nothing. -/
theorem replaceCurrent_self (hq : s.current? = some q) : s.replaceCurrent q = s := by
  rw [show q = id q from rfl, replaceCurrent_eq_modifyQuery hq]
  obtain ⟨head, unions, cursor, fault⟩ := s
  cases cursor with
  | zero => rfl
  | succ i =>
    have hid : (fun u : UnitedQuery => { u with query := id u.query }) = id := by
      funext u
      cases u
      rfl
    have hmodify : (unions.modify i fun u => { u with query := id u.query }) = unions := by
      rw [hid, List.modify_id]
    exact congrArg (fun unions => (⟨head, unions, i + 1, fault⟩ : Select)) hmodify

/-! ### The slots -/

theorem noted_own : s.noted .own = s.fault := rfl

theorem noted_filter (hq : s.current? = some q) : s.noted (.filter s.cursor) = q.filter.fault := by
  have hquery : s.queries[s.cursor]? = some q := hq
  simp [noted, Slot.ways, Node.notedAt, Node.part?, hquery, Node.noted]

theorem noted_case {c : CaseColumn} {j : Nat} (hq : s.current? = some q)
    (hc : q.columns[j]? = some (.case c)) : s.noted (.case s.cursor j) = c.fault := by
  have hquery : s.queries[s.cursor]? = some q := hq
  simp [noted, Slot.ways, Node.notedAt, Node.part?, hquery, hc, Node.noted]

/-- The last element is changed in its place. -/
theorem modify_last {α : Type} {l : List α} {a : α} (g : α → α) (h : l.getLast? = some a) :
    l.modify (l.length - 1) g = l.dropLast ++ [g a] := by
  obtain ⟨front, rfl⟩ := List.getLast?_eq_some_iff.mp h
  rw [List.dropLast_concat, List.length_append, List.length_singleton, Nat.add_sub_cancel]
  exact List.modifyTailIdx_add _ 0 front _

theorem current?_replaceCurrent (hq : s.current? = some q) (r : Query) :
    (s.replaceCurrent r).current? = some r := by
  obtain ⟨hlt, -⟩ := List.getElem?_eq_some_iff.mp hq
  rw [current?, cursor_replaceCurrent, queries_replaceCurrent, List.getElem?_set_self hlt]

/-- A step that the predicate of WHERE rejects. -/
theorem apply_filter_of_rejects {step : Predicate.Step} (hq : s.current? = some q)
    (h : q.filter.Rejects step f) :
    s.apply (.edit (.filter step)) = s.replaceCurrent { q with filter := q.filter.note f } := by
  rw [← Predicate.apply_of_rejects h]
  exact apply_edit_of_ok hq rfl

/-- A step that a CASE rejects. -/
theorem apply_onCase_of_rejects {c : CaseColumn} {step : CaseColumn.Step} (hq : s.current? = some q)
    (hc : q.columns.getLast? = some (.case c)) (h : c.Rejects step f) :
    s.apply (.edit (.onCase step)) =
      s.replaceCurrent { q with columns := q.columns.dropLast ++ [.case (c.note f)] } := by
  rw [← CaseColumn.apply_of_rejects h]
  refine apply_edit_of_ok hq ?_
  rw [Query.edit, Query.editLastCase, hc]
  rfl

/-- **A rejected step is atomic.** It puts its fault into an empty slot, or does nothing. -/
theorem apply_of_rejects (h : s.Rejects step slot f) :
    s.apply step = if s.noted slot = none then s.withNoted f slot else s := by
  cases h with
  | @own q e f hq h =>
    rw [apply_edit_of_error hq (Query.edit_eq_error_iff.mpr h), noted_own]
    obtain ⟨head, unions, cursor, fault⟩ := s
    cases fault <;> rfl
  | @filter q step f hq h =>
    rw [apply_filter_of_rejects hq h, noted_filter hq, Predicate.note_eq_ite]
    by_cases hfault : q.filter.fault = none
    · rw [if_pos hfault, if_pos hfault]
      exact replaceCurrent_eq_modifyQuery hq fun q => { q with filter := { q.filter with fault := some f } }
    · rw [if_neg hfault, if_neg hfault, q.mk_fields]
      exact replaceCurrent_self hq
  | @case q c step f hq hc h =>
    have hcolumn : q.columns[q.columns.length - 1]? = some (.case c) := by
      rw [← hc, List.getLast?_eq_getElem?]
    rw [apply_onCase_of_rejects hq hc h, noted_case hq hcolumn, CaseColumn.note_eq_ite]
    by_cases hfault : c.fault = none
    · rw [if_pos hfault, if_pos hfault, withNoted, ← replaceCurrent_eq_modifyQuery hq, modify_last _ hc]
    · have hlast : q.columns.dropLast ++ [.case c] = q.columns := List.dropLast_append_getLast? _ hc
      rw [if_neg hfault, if_neg hfault, hlast, q.mk_fields]
      exact replaceCurrent_self hq

/-- After a rejected step the slot holds the fault that was there, or else the new one. -/
theorem noted_apply_of_rejects (h : s.Rejects step slot f) :
    (s.apply step).noted slot = some ((s.noted slot).getD f) := by
  have hkept (slot : Option Fault) : keepFirst slot f = some (slot.getD f) := by
    cases slot <;> rfl
  cases h with
  | @own q e f hq h =>
    rw [apply_edit_of_error hq (Query.edit_eq_error_iff.mpr h)]
    exact hkept s.fault
  | @filter q step f hq h =>
    have hafter := noted_filter (current?_replaceCurrent hq { q with filter := q.filter.note f })
    rw [cursor_replaceCurrent] at hafter
    rw [apply_filter_of_rejects hq h, hafter, noted_filter hq]
    exact hkept q.filter.fault
  | @case q c step f hq hc h =>
    have hcolumn : q.columns[q.columns.length - 1]? = some (.case c) := by
      rw [← hc, List.getLast?_eq_getElem?]
    have hchanged : (q.columns.dropLast ++ [Column.case (c.note f)])[q.columns.length - 1]? =
        some (.case (c.note f)) := by
      obtain ⟨front, hfront⟩ := List.getLast?_eq_some_iff.mp hc
      simp [hfront]
    have hafter := noted_case
      (current?_replaceCurrent hq { q with columns := q.columns.dropLast ++ [.case (c.note f)] }) hchanged
    rw [cursor_replaceCurrent] at hafter
    rw [apply_onCase_of_rejects hq hc h, hafter, noted_case hq hcolumn]
    exact hkept c.fault

/-- Only a rejected step notes a fault on the `Select` itself. -/
theorem fault_apply_eq_some_iff (hs : s.fault = none) :
    (s.apply step).fault = some f ↔ s.Rejects step .own f := by
  cases step with
  | union k | root =>
    show s.fault = some f ↔ _
    rw [hs]
    exact iff_of_false (by rintro ⟨⟩) (by rintro ⟨⟩)
  | edit e =>
    have hrejects (q : Query) (hq : s.current? = some q) :
        s.Rejects (.edit e) .own f ↔ q.edit e = .error f := by
      rw [Query.edit_eq_error_iff]
      constructor
      · rintro ⟨hcurrent, h⟩
        rw [hq] at hcurrent
        cases hcurrent
        exact h
      · exact .own hq
    rcases s.apply_edit_cases e with ⟨hq, hsame⟩ | ⟨q, g, hq, he, hnote⟩ | ⟨q, q', hq, he, hchange⟩
    · rw [hsame, hs]
      refine iff_of_false (by rintro ⟨⟩) ?_
      rintro ⟨hcurrent, -⟩
      rw [hq] at hcurrent
      cases hcurrent
    · rw [hnote, hrejects q hq, he]
      exact keepFirst_eq_some_iff hs
    · rw [hchange, fault_replaceCurrent, hs, hrejects q hq, he]
      exact iff_of_false (by rintro ⟨⟩) (by rintro ⟨⟩)

end Select

end BoundSql
