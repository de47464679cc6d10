import BoundSql.Proofs.BindingOrder
import Mathlib.Data.List.Forall2

/-!
# `BoundSql.Proofs.Filtering` — a requested predicate is never lost

A caller asks for the terms of a predicate one by one, and a request that does not fit is rejected without
a word. A statement whose first request was rejected has a predicate without terms, just as one that never
was to have a predicate. If its WHERE were left out, it would change every row of a table. So the slot for
faults has to remember each rejection, and a statement that is asked for a predicate has to write it or
fail.

## Contents
- **`Entry.Denotes`** relates an entry to its term.
- **`Predicate.requests`** lists what was asked for, **`Predicate.Fits`** says that it makes a predicate.
- **`Predicate.Keeps`** is what a predicate keeps of its requests: `Keeps.push` for one request,
  `Predicate.keeps_ofSteps` for all of them.
- **`Filtered`** is a statement, or one query of a SELECT, with the steps that made it;
  `Filtered.filter_eq_ofSteps` finds those of its predicate among all others.
- **`Filtered.HasClause`** is what the text of a statement owes to the requests, and
  **`Filtered.requested_filter_isWritten`** is the law of all of them.
-/

namespace BoundSql

/-! ## Requests -/

/-- The operator of an entry is spelled like one. A group has no operator. -/
def Entry.IsReadable : Entry → Prop
  | .comparison _ operator _ _ => ∃ op : Operator, op.text = operator
  | .group _ _ => True

/-- The term that an entry stands for. A group that is negated already stays so. -/
inductive Entry.Denotes : Entry → Term → Prop where
  | comparison {field : String} {op : Operator} {operand : Operand} {negated : Bool} :
      Denotes (.comparison field op.text operand negated) (.comparison ⟨field, op, operand, negated⟩)
  | group {p : Predicate} {negated : Bool} :
      Denotes (.group p negated) (.group { p with negated := p.negated || negated })

theorem Entry.term_eq_ok_iff {e : Entry} {t : Term} : e.term = .ok t ↔ e.Denotes t := by
  cases e with
  | comparison field operator operand negated =>
    constructor
    · intro h
      rw [Entry.term, Operator.read] at h
      cases hop : Operator.ofText? operator with
      | none =>
        rw [hop] at h
        cases h
      | some op =>
        rw [hop] at h
        cases h
        have htext : op.text = operator := Operator.text_of_ofText? hop
        subst htext
        exact .comparison
    · rintro ⟨⟩
      rw [Entry.term, Operator.read, Operator.ofText?_text]
  | group p negated =>
    have hgroup : (if negated then p.negate else p) = { p with negated := p.negated || negated } := by
      obtain ⟨chain, negatedBefore, fault⟩ := p
      cases negated with
      | false =>
        rw [Bool.or_false]
        rfl
      | true =>
        rw [Bool.or_true]
        rfl
    rw [Entry.term, hgroup]
    constructor
    · rintro ⟨⟩
      exact .group
    · rintro ⟨⟩
      rfl

theorem Entry.isReadable_iff {e : Entry} : e.IsReadable ↔ ∃ t, e.Denotes t := by
  cases e with
  | comparison field operator operand negated =>
    constructor
    · rintro ⟨op, rfl⟩
      exact ⟨_, .comparison⟩
    · rintro ⟨t, h⟩
      cases h
      exact ⟨_, rfl⟩
  | group p negated => exact iff_of_true trivial ⟨_, .group⟩

namespace Predicate

variable {p : Predicate} {rs : List (Role × Entry)}

/-- What steps ask of a predicate, in order. A negation asks for no term. -/
def requests : List Step → List (Role × Entry)
  | [] => []
  | .add role e :: rest => (role, e) :: requests rest
  | .negate :: rest => requests rest

/-- Requests that make a predicate: the first one opens it, all others are joined, and every operator can
    be read. -/
def Fits : List (Role × Entry) → Prop
  | [] => True
  | (role, e) :: rest =>
    role = .first ∧ e.IsReadable ∧ ∀ r ∈ rest, (∃ k, r.1 = .joined k) ∧ r.2.IsReadable

/-- One more request fits if the others do and its role is the one for its place. -/
theorem fits_append_singleton {rs : List (Role × Entry)} {role : Role} {e : Entry} :
    Fits (rs ++ [(role, e)]) ↔
      Fits rs ∧ e.IsReadable ∧ (rs = [] ∧ role = .first ∨ rs ≠ [] ∧ ∃ k, role = .joined k) := by
  cases rs with
  | nil => simp [Fits, and_comm]
  | cons r rest =>
    simp only [List.cons_append, Fits, List.forall_mem_append, List.forall_mem_singleton]
    simp only [reduceCtorEq, false_and, false_or, not_false_eq_true, true_and, ne_eq]
    tauto

/-! ## What a predicate keeps -/

/-- A term is added if its entry can be read and its role is the one for its place. -/
theorem extend_eq_ok_iff {chain : Option Chain} {role : Role} {e : Entry} {c : Chain} :
    extend chain role e = .ok c ↔
      ∃ t, e.Denotes t ∧
        (role = .first ∧ chain = none ∧ c = ⟨t, []⟩ ∨
          ∃ k c', role = .joined k ∧ chain = some c' ∧ c = { c' with rest := c'.rest ++ [⟨k, t⟩] }) := by
  simp only [← Entry.term_eq_ok_iff]
  cases role with
  | first =>
    cases chain with
    | some c' => simp [extend]
    | none => cases he : e.term <;> simp [extend, he, eq_comm]
  | joined k =>
    cases chain with
    | none => simp [extend]
    | some c' => cases he : e.term <;> simp [extend, he, eq_comm]

/-- A predicate and the requests that were made of it: it has no fault exactly if they fit, and then they
    are its terms and connectives. -/
structure Keeps (p : Predicate) (rs : List (Role × Entry)) : Prop where
  fault_eq_none_iff : p.fault = none ↔ Fits rs
  terms : p.fault = none → List.Forall₂ Entry.Denotes (rs.map (·.2)) p.terms
  connectives : p.fault = none → rs.tail.map (·.1) = p.connectives.map Role.joined

theorem keeps_empty : empty.Keeps [] :=
  ⟨iff_of_true rfl trivial, fun _ => .nil, fun _ => rfl⟩

/-- Of requests that do not fit, a fault is enough. -/
theorem Keeps.of_fault {f : Fault} (hf : p.fault = some f) (h : ¬ Fits rs) : p.Keeps rs := by
  have hsome : p.fault ≠ none := by
    rw [hf]
    exact Option.some_ne_none f
  exact ⟨iff_of_false hsome h, fun hnone => absurd hnone hsome, fun hnone => absurd hnone hsome⟩

/-- As long as all requests are terms, there are terms exactly if there were requests. -/
theorem Keeps.chain_eq_none_iff (h : p.Keeps rs) (hf : p.fault = none) : p.chain = none ↔ rs = [] := by
  have hlength := (h.terms hf).length_eq
  cases hc : p.chain with
  | none => simpa [Predicate.terms, hc] using hlength
  | some c =>
    refine iff_of_false (Option.some_ne_none c) ?_
    rintro rfl
    simp [Predicate.terms, hc, Chain.terms] at hlength

/-- A request that fits is not rejected. -/
theorem Keeps.exists_extend_eq_ok (h : p.Keeps rs) (hf : p.fault = none) {role : Role} {e : Entry}
    (hfits : Fits (rs ++ [(role, e)])) : ∃ c, extend p.chain role e = .ok c := by
  have hchain := h.chain_eq_none_iff hf
  obtain ⟨-, hread, hrole⟩ := fits_append_singleton.mp hfits
  obtain ⟨t, ht⟩ := Entry.isReadable_iff.mp hread
  rcases hrole with ⟨hnil, hfirst⟩ | ⟨hne, k, hjoined⟩
  · exact ⟨_, extend_eq_ok_iff.mpr ⟨t, ht, .inl ⟨hfirst, hchain.mpr hnil, rfl⟩⟩⟩
  · obtain ⟨c, hc⟩ := Option.ne_none_iff_exists'.mp (mt hchain.mp hne)
    exact ⟨_, extend_eq_ok_iff.mpr ⟨t, ht, .inr ⟨k, c, hjoined, hc, rfl⟩⟩⟩

/-- **One request.** It is kept as a term, or as a fault. -/
theorem Keeps.push (h : p.Keeps rs) (role : Role) (e : Entry) :
    (p.push role e).Keeps (rs ++ [(role, e)]) := by
  cases hf : p.fault with
  | some f =>
    -- Earlier requests did not fit, and the fault of the first of them stays.
    have hstays : (p.push role e).fault = some f := fault_apply hf (.add role e)
    refine .of_fault hstays fun hfits => ?_
    have hnone : p.fault = none := h.fault_eq_none_iff.mpr (fits_append_singleton.mp hfits).1
    rw [hf] at hnone
    cases hnone
  | none =>
    have hterms := h.terms hf
    have hconnectives := h.connectives hf
    have hchain := h.chain_eq_none_iff hf
    cases hext : extend p.chain role e with
    | error f =>
      have hnoted : (p.push role e).fault = some f := by
        rw [push_of_error hext, note, hf]
        rfl
      refine .of_fault hnoted fun hfits => ?_
      obtain ⟨c, hc⟩ := h.exists_extend_eq_ok hf hfits
      rw [hext] at hc
      cases hc
    | ok c =>
      obtain ⟨t, ht, hrole⟩ := extend_eq_ok_iff.mp hext
      have hpush : p.push role e = { p with chain := some c } := by
        rw [Predicate.push, hext]
      have hfits : Fits (rs ++ [(role, e)]) := by
        refine fits_append_singleton.mpr
          ⟨h.fault_eq_none_iff.mp hf, Entry.isReadable_iff.mpr ⟨t, ht⟩, ?_⟩
        rcases hrole with ⟨hfirst, hnone, -⟩ | ⟨k, c', hjoined, hsome, -⟩
        · exact .inl ⟨hchain.mp hnone, hfirst⟩
        · refine .inr ⟨fun hnil => ?_, k, hjoined⟩
          rw [hchain.mpr hnil] at hsome
          cases hsome
      have hone : List.Forall₂ Entry.Denotes [e] [t] := .cons ht .nil
      rw [hpush]
      refine ⟨iff_of_true hf hfits, fun _ => ?_, fun _ => ?_⟩
      · have happ : List.Forall₂ Entry.Denotes (rs.map (·.2) ++ [e]) (p.terms ++ [t]) :=
          List.rel_append hterms hone
        have hall : ({ p with chain := some c } : Predicate).terms = p.terms ++ [t] := by
          rcases hrole with ⟨-, hnone, rfl⟩ | ⟨k, c', -, hsome, rfl⟩
          · simp [Predicate.terms, hnone, Chain.terms]
          · simp [Predicate.terms, hsome, Chain.terms]
        rwa [List.map_append, hall]
      · rcases hrole with ⟨-, hnone, rfl⟩ | ⟨k, c', rfl, hsome, rfl⟩
        · rw [hchain.mp hnone]
          rfl
        · have hne : rs ≠ [] := fun hnil => by
            rw [hchain.mpr hnil] at hsome
            cases hsome
          rw [List.tail_append_of_ne_nil hne, List.map_append, hconnectives]
          simp [Predicate.connectives, hsome, Chain.connectives]

theorem Keeps.negate (h : p.Keeps rs) : p.negate.Keeps rs :=
  ⟨h.fault_eq_none_iff, h.terms, h.connectives⟩

/-- **All requests.** Whatever is asked for, in whatever order, is kept. -/
theorem Keeps.applyAll (h : p.Keeps rs) (steps : List Step) :
    (p.applyAll steps).Keeps (rs ++ requests steps) := by
  induction steps generalizing p rs with
  | nil =>
    rw [requests, List.append_nil]
    exact h
  | cons step rest ih =>
    cases step with
    | add role e =>
      have hrest := ih (h.push role e)
      rwa [List.append_assoc] at hrest
    | negate => exact ih h.negate

theorem keeps_ofSteps (steps : List Step) : (ofSteps steps).Keeps (requests steps) :=
  keeps_empty.applyAll steps

/-- A predicate is negated from the first negation on. -/
theorem negated_applyAll (p : Predicate) (steps : List Step) :
    (p.applyAll steps).negated = true ↔ p.negated = true ∨ .negate ∈ steps := by
  induction steps generalizing p with
  | nil => simp [applyAll]
  | cons step rest ih =>
    have hrest := ih (p.apply step)
    rw [List.mem_cons]
    cases step with
    | add role e =>
      have hsame : (p.apply (.add role e)).negated = p.negated := by
        rw [apply, push]
        cases extend p.chain role e with
        | ok c => rfl
        | error f => rfl
      rw [hsame] at hrest
      simpa [applyAll] using hrest
    | negate =>
      refine iff_of_true (hrest.mpr (.inl rfl)) ?_
      exact .inr (.inl rfl)

/-! ## What is written of a predicate -/

/-- A predicate that is written without a fault has terms, and they are what is written. -/
theorem script_of_fault?_eq_none (h : Script.fault? p.script = none) :
    ∃ c, p.fault = none ∧ p.chain = some c ∧ p.script = c.script := by
  obtain ⟨chain, negated, fault⟩ := p
  cases fault with
  | some f =>
    rw [Predicate.script] at h
    cases h
  | none =>
    cases chain with
    | none => cases h
    | some c =>
      refine ⟨c, rfl, rfl, ?_⟩
      rw [Predicate.script, chainScript]

/-- A predicate of which something was asked has to be written. -/
theorem Keeps.isPending (h : p.Keeps rs) (hrs : rs ≠ []) : p.isPending = true := by
  cases hf : p.fault with
  | some f => simp [Predicate.isPending, hf]
  | none =>
    have hlength := (h.terms hf).length_eq
    have hterms : p.terms ≠ [] := by
      intro hnil
      rw [hnil, List.length_map, List.length_nil] at hlength
      exact hrs (List.eq_nil_of_length_eq_zero hlength)
    rw [Predicate.isPending, p.hasTerms_iff.mpr hterms, Bool.true_or]

/-- The clause of a predicate that is written without a fault: the word WHERE, and the terms, in parentheses
    behind NOT if the predicate is negated. -/
theorem Keeps.text_whereClause (h : p.Keeps rs) (hrs : rs ≠ [])
    (hfault : Script.fault? p.whereClause = none) :
    ∃ c, p.fault = none ∧ p.chain = some c ∧
      Script.text p.whereClause = " WHERE " ++
        if p.negated then "NOT (" ++ Script.text c.script ++ ")" else Script.text c.script := by
  rw [whereClause_of_isPending (h.isPending hrs), clause, negatable] at hfault ⊢
  cases hneg : p.negated with
  | false =>
    simp only [hneg] at hfault
    obtain ⟨c, hnone, hc, hscript⟩ := script_of_fault?_eq_none hfault
    exact ⟨c, hnone, hc, by rw [← hscript]; rfl⟩
  | true =>
    simp only [hneg] at hfault
    have hinner : Script.fault? p.script = none := by
      have hparens : Script.fault? p.script.inParens = none := hfault
      rwa [Script.fault?_inParens] at hparens
    obtain ⟨c, hnone, hc, hscript⟩ := script_of_fault?_eq_none hinner
    refine ⟨c, hnone, hc, ?_⟩
    rw [← hscript, if_pos rfl, if_pos rfl, Script.text, Script.text, Script.text_inParens]
    simp only [Piece.written, Fragment.text, ← String.append_assoc]
    rfl

end Predicate

/-! ## Steps on the predicate among other steps -/

/-- The step on the predicate of WHERE in an edit, if it is one. -/
def Edit.filterSteps : Edit → List Predicate.Step
  | .filter s => [s]
  | _ => []

/-- The steps on the predicate of an UPDATE. -/
def Update.filterSteps : List Step → List Predicate.Step
  | [] => []
  | .filter s :: rest => s :: filterSteps rest
  | .table _ :: rest | .assign _ :: rest | .assignAll _ :: rest => filterSteps rest

/-- The steps on the predicate of a DELETE. -/
def Delete.filterSteps : List Step → List Predicate.Step
  | [] => []
  | .filter s :: rest => s :: filterSteps rest
  | .table _ :: rest => filterSteps rest

/-- The steps on the predicate of the query at position `i`, among steps on a `Select` of `size` queries with
    the cursor at `cursor`. -/
def Select.filterSteps (i : Nat) : (cursor size : Nat) → List Step → List Predicate.Step
  | _, _, [] => []
  | cursor, size, .edit e :: rest =>
    (if cursor = i then e.filterSteps else []) ++ filterSteps i cursor size rest
  | _, size, .union _ :: rest => filterSteps i size (size + 1) rest
  | _, size, .root :: rest => filterSteps i 0 size rest

theorem Update.filter_ofSteps (table : String) (steps : List Step) :
    (ofSteps table steps).filter = Predicate.ofSteps (filterSteps steps) := by
  have hrun (u : Update) : (steps.foldl apply u).filter = u.filter.applyAll (filterSteps steps) := by
    induction steps generalizing u with
    | nil => rfl
    | cons step rest ih => cases step <;> exact ih _
  exact hrun (of table)

theorem Delete.filter_ofSteps (table : String) (steps : List Step) :
    (ofSteps table steps).filter = Predicate.ofSteps (filterSteps steps) := by
  have hrun (d : Delete) : (steps.foldl apply d).filter = d.filter.applyAll (filterSteps steps) := by
    induction steps generalizing d with
    | nil => rfl
    | cons step rest ih => cases step <;> exact ih _
  exact hrun (of table)

/-- An edit leaves the predicate of WHERE alone, unless it is a step on it. -/
theorem Query.filter_edit {q q' : Query} {e : Edit} (h : q.edit e = .ok q') :
    q'.filter = q.filter.applyAll e.filterSteps := by
  -- Many edits rebuild one other clause, if they are not rejected.
  have hmap {α : Type} {x : Except Fault α} {f : α → Query} (h : x.map f = .ok q')
      (hf : ∀ a, (f a).filter = q.filter) : q'.filter = q.filter := by
    cases x with
    | error g => cases h
    | ok a =>
      cases h
      exact hf a
  cases e with
  | labels _ | withinGroup _ | onCase _ | joinCondition _ => exact hmap h fun _ => rfl
  | groupBy _ | having _ =>
    simp only [edit] at h
    split at h
    · cases h
    · cases h
      rfl
  | columns _ | column _ | distinct | source _ _ | join _ _ _ | filter _ | orderBy _ | limit _
  | offset _ | page _ _ =>
    cases h
    rfl

/-- A step on the predicate of WHERE is never rejected as an edit. -/
theorem Query.filterSteps_of_edit_error {q : Query} {e : Edit} {f : Fault} (h : q.edit e = .error f) :
    e.filterSteps = [] := by
  cases e with
  | filter s => cases h
  | _ => rfl

namespace Select

variable {s : Select}

/-- The predicate of WHERE of the query at a position. Where there is no query, there is no term. -/
def filterAt (s : Select) (i : Nat) : Predicate :=
  ((s.queries[i]?).map (·.filter)).getD .empty

theorem filterAt_replaceCurrent (h : s.cursor < s.size) (q : Query) (i : Nat) :
    (s.replaceCurrent q).filterAt i = if s.cursor = i then q.filter else s.filterAt i := by
  have hlength : s.cursor < s.queries.length := by
    rw [length_queries]
    exact h
  rw [filterAt, queries_replaceCurrent, List.getElem?_set]
  by_cases hi : s.cursor = i
  · rw [if_pos hi, if_pos hlength, if_pos hi]
    rfl
  · rw [if_neg hi, if_neg hi]
    rfl

/-- An edit steps on the predicate of the query under the cursor only. -/
theorem filterAt_editCurrent (h : s.cursor < s.size) (e : Edit) (i : Nat) :
    (s.editCurrent e).filterAt i =
      (s.filterAt i).applyAll (if s.cursor = i then e.filterSteps else []) := by
  have hlength : s.cursor < s.queries.length := by
    rw [length_queries]
    exact h
  have hcurrent : s.current? = some s.queries[s.cursor] := List.getElem?_eq_getElem hlength
  rw [editCurrent, hcurrent]
  dsimp only
  cases hedit : s.queries[s.cursor].edit e with
  | error f =>
    have hsteps : (if s.cursor = i then e.filterSteps else []) = [] := by
      rw [Query.filterSteps_of_edit_error hedit, ite_self]
    rw [hsteps]
    rfl
  | ok q' =>
    dsimp only
    rw [filterAt_replaceCurrent h]
    by_cases hi : s.cursor = i
    · have hfilter : s.filterAt i = s.queries[s.cursor].filter := by
        subst hi
        rw [filterAt, List.getElem?_eq_getElem hlength]
        rfl
      rw [if_pos hi, if_pos hi, hfilter]
      exact Query.filter_edit hedit
    · rw [if_neg hi, if_neg hi]
      rfl

/-- The query that a union adds has no terms, just like the place where there was none. -/
theorem filterAt_unite (k : UnionKind) (i : Nat) : (s.unite k).filterAt i = s.filterAt i := by
  rw [filterAt, filterAt, queries_unite]
  by_cases hi : i < s.queries.length
  · rw [List.getElem?_append_left hi]
  · have hle : s.queries.length ≤ i := Nat.le_of_not_lt hi
    rw [List.getElem?_append_right hle, List.getElem?_eq_none hle]
    cases i - s.queries.length with
    | zero => rfl
    | succ j => rfl

/-- The predicate of a query is made by the steps on it, whatever happens to other clauses and queries. -/
theorem filterAt_applyAll (h : s.cursor < s.size) (steps : List Step) (i : Nat) :
    (s.applyAll steps).filterAt i = (s.filterAt i).applyAll (filterSteps i s.cursor s.size steps) := by
  induction steps generalizing s with
  | nil => rfl
  | cons step rest ih =>
    have hrest := ih (cursor_apply_lt h step)
    cases step with
    | edit e =>
      have hsame := s.editCurrent_cursor_size e
      rw [apply, hsame.1, hsame.2, filterAt_editCurrent h] at hrest
      rw [filterSteps, Predicate.applyAll, List.foldl_append]
      exact hrest
    | union k =>
      have hfilter := filterAt_unite (s := s) k i
      have hsize : (s.unite k).size = s.size + 1 := by simp [unite, size]
      rw [apply, hsize, hfilter] at hrest
      exact hrest
    | root => exact hrest

theorem filterAt_ofSteps (steps : List Step) (i : Nat) :
    (ofSteps steps).filterAt i = Predicate.ofSteps (filterSteps i 0 1 steps) := by
  have hstart : empty.cursor < empty.size := Nat.zero_lt_one
  have hempty : empty.filterAt i = .empty := by
    cases i with
    | zero => rfl
    | succ j => rfl
  rw [ofSteps, filterAt_applyAll hstart, hempty]
  rfl

end Select

/-! ## Statements with a predicate -/

/-- What has a WHERE clause, with the steps that made it: an UPDATE, a DELETE, or the query of a SELECT at a
    position. -/
inductive Filtered where
  | update (table : String) (steps : List Update.Step)
  | delete (table : String) (steps : List Delete.Step)
  | select (steps : List Select.Step) (i : Nat)

namespace Filtered

/-- The statement that the steps make. -/
def statement : Filtered → Statement
  | update table steps => .update (.ofSteps table steps)
  | delete table steps => .delete (.ofSteps table steps)
  | select steps _ => .select (.ofSteps steps)

/-- The predicate of WHERE. -/
def filter : Filtered → Predicate
  | update table steps => (Update.ofSteps table steps).filter
  | delete table steps => (Delete.ofSteps table steps).filter
  | select steps i => (Select.ofSteps steps).filterAt i

/-- The steps on the predicate. -/
def filterSteps : Filtered → List Predicate.Step
  | update _ steps => Update.filterSteps steps
  | delete _ steps => Delete.filterSteps steps
  | select steps i => Select.filterSteps i 0 1 steps

/-- What was asked of the predicate. -/
def requests (x : Filtered) : List (Role × Entry) :=
  Predicate.requests x.filterSteps

/-- The script of the statement, or of the query, with a predicate in the place of its own. -/
def scriptWith : Filtered → Predicate → Script
  | update table steps, p => Update.script { Update.ofSteps table steps with filter := p }
  | delete table steps, p => Delete.script { Delete.ofSteps table steps with filter := p }
  | select steps i, p =>
    match (Select.ofSteps steps).queries[i]? with
    | none => []
    | some q => Query.script { q with filter := p }

/-- The predicate is made by the steps on it. -/
theorem filter_eq_ofSteps (x : Filtered) : x.filter = Predicate.ofSteps x.filterSteps := by
  cases x with
  | update table steps => exact Update.filter_ofSteps table steps
  | delete table steps => exact Delete.filter_ofSteps table steps
  | select steps i => exact Select.filterAt_ofSteps steps i

theorem keeps_filter (x : Filtered) : x.filter.Keeps x.requests := by
  rw [filter_eq_ofSteps]
  exact Predicate.keeps_ofSteps x.filterSteps

end Filtered

/-! ## The place of the clause -/

theorem Update.exists_script_eq {u : Update} (h : Script.fault? u.script = none) :
    ∃ front : Script, ∀ p : Predicate, Update.script { u with filter := p } = front ++ p.whereClause := by
  unfold Update.script at h ⊢
  by_cases htable : u.table = ""
  · rw [if_pos htable] at h
    cases h
  · rw [if_neg htable] at h
    by_cases hnone : u.assignments.isEmpty = true
    · rw [if_pos hnone] at h
      cases h
    · refine ⟨.keyword "UPDATE " :: .verbatim u.table :: .keyword " SET " ::
        Script.commaList (u.assignments.map Assignment.script), fun p => ?_⟩
      dsimp only
      rw [if_neg htable, if_neg hnone]
      rfl

theorem Delete.exists_script_eq {d : Delete} (h : Script.fault? d.script = none) :
    ∃ front : Script, ∀ p : Predicate, Delete.script { d with filter := p } = front ++ p.whereClause := by
  unfold Delete.script at h ⊢
  by_cases htable : d.table = ""
  · rw [if_pos htable] at h
    cases h
  · refine ⟨[.keyword "DELETE FROM ", .verbatim d.table], fun p => ?_⟩
    dsimp only
    rw [if_neg htable]
    rfl

theorem Query.exists_script_eq (q : Query) :
    ∃ front back : Script, ∀ p : Predicate,
      Query.script { q with filter := p } = front ++ p.whereClause ++ back := by
  obtain ⟨columns, distinct, source, sourceLabel, joins, filter, groupBy, having, orderBy, limit,
    offset⟩ := q
  refine ⟨.keyword (if distinct then "SELECT DISTINCT " else "SELECT ") ::
      (columnsScript columns ++ .keyword " FROM " ::
        (sourceScript source ++ sourceLabelScript sourceLabel ++ joinsScript joins)),
    groupScript groupBy ++ havingScript having ++ orderScript orderBy ++ pageScript limit offset,
    fun p => ?_⟩
  rw [Query.script_mk]
  simp only [List.append_assoc, List.cons_append]

namespace Filtered

/-- The clause stands in one place of the statement, and what stands around it does not depend on it. -/
theorem exists_script_eq {x : Filtered} (hpending : x.filter.isPending = true)
    (h : Script.fault? x.statement.script = none) :
    ∃ before front back after : Script,
      x.statement.script = before ++ x.scriptWith x.filter ++ after ∧
        ∀ p, x.scriptWith p = front ++ p.whereClause ++ back := by
  cases x with
  | update table steps =>
    obtain ⟨front, hfront⟩ := Update.exists_script_eq h
    refine ⟨[], front, [], [], ?_, fun p => ?_⟩
    · rw [List.append_nil]
      rfl
    · rw [List.append_nil]
      exact hfront p
  | delete table steps =>
    obtain ⟨front, hfront⟩ := Delete.exists_script_eq h
    refine ⟨[], front, [], [], ?_, fun p => ?_⟩
    · rw [List.append_nil]
      rfl
    · rw [List.append_nil]
      exact hfront p
  | select steps i =>
    cases hq : (Select.ofSteps steps).queries[i]? with
    | none =>
      -- Where there is no query, nothing is pending.
      rw [filter, Select.filterAt, hq] at hpending
      cases hpending
    | some q =>
      have hmem : q ∈ (Select.ofSteps steps).queries := List.mem_of_getElem? hq
      obtain ⟨before, after, hwhole⟩ := Select.exists_script_eq hmem h
      obtain ⟨front, back, hclause⟩ := q.exists_script_eq
      have hscript (p : Predicate) :
          (select steps i).scriptWith p = Query.script { q with filter := p } := by
        rw [scriptWith, hq]
      have hown : Query.script { q with filter := (select steps i).filter } = q.script := by
        rw [filter, Select.filterAt, hq]
        cases q
        rfl
      refine ⟨before, front, back, after, ?_, fun p => ?_⟩
      · rw [hscript, hown]
        exact hwhole
      · rw [hscript]
        exact hclause p

/-- The text of a statement has the clause of what was requested: the word WHERE and the requested terms, in
    parentheses behind NOT if the predicate is negated. The text of the statement, or of the query, is the
    one without a predicate with this clause put into it. -/
def HasClause (x : Filtered) (sql : String) : Prop :=
  ∃ (c : Chain) (before front back after : String),
    List.Forall₂ Entry.Denotes (x.requests.map (·.2)) c.terms ∧
      x.requests.tail.map (·.1) = c.connectives.map Role.joined ∧
      sql = before ++ Script.text (x.scriptWith x.filter) ++ after ∧
      Script.text (x.scriptWith x.filter) = front ++ (" WHERE " ++
        if x.filter.negated then "NOT (" ++ Script.text c.script ++ ")" else Script.text c.script) ++ back ∧
      Script.text (x.scriptWith .empty) = front ++ back

/-- A statement that was asked for a predicate is prepared with its clause. -/
theorem hasClause_of_prepare {x : Filtered} {p : Prepared} (hx : x.requests ≠ [])
    (hp : x.statement.prepare = .ok p) : x.HasClause p.sql := by
  obtain ⟨hfault, rfl⟩ := Statement.prepare_eq_ok_iff.mp hp
  have hkeeps := x.keeps_filter
  obtain ⟨before, front, back, after, hwhole, hclause⟩ :=
    exists_script_eq (hkeeps.isPending hx) hfault
  -- No part of the statement has a fault, so its clause has none.
  have hwhere : Script.fault? x.filter.whereClause = none := by
    rw [hwhole, hclause] at hfault
    simp only [Script.fault?_append_eq_none] at hfault
    exact hfault.1.2.1.2
  obtain ⟨c, hnone, hc, htext⟩ := hkeeps.text_whereClause hx hwhere
  have hterms : x.filter.terms = c.terms := by
    rw [Predicate.terms, hc]
    rfl
  have hconnectives : x.filter.connectives = c.connectives := by
    rw [Predicate.connectives, hc]
    rfl
  refine ⟨c, Script.text before, Script.text front, Script.text back, Script.text after, ?_, ?_, ?_, ?_,
    ?_⟩
  · rw [← hterms]
    exact hkeeps.terms hnone
  · rw [← hconnectives]
    exact hkeeps.connectives hnone
  · rw [hwhole, Script.text_append, Script.text_append]
  · rw [hclause, Script.text_append, Script.text_append, htext]
  · rw [hclause, Script.text_append, Script.text_append]
    exact congrArg (· ++ Script.text back) String.append_empty

/-- A text with a clause is longer than the one without it. -/
theorem HasClause.text_ne {x : Filtered} {sql : String} (h : x.HasClause sql) :
    Script.text (x.scriptWith x.filter) ≠ Script.text (x.scriptWith .empty) := by
  obtain ⟨c, before, front, back, after, -, -, -, hwith, hwithout⟩ := h
  intro heq
  rw [hwith, hwithout] at heq
  have hlength := congrArg String.length heq
  simp only [String.length_append] at hlength
  have hword : " WHERE ".length = 7 := rfl
  omega

/-- **A requested predicate is never lost.** Whatever steps a predicate was made by, it has no fault exactly if
    the requests among them fit, and then its terms and connectives are those that were requested, in order.
    The same holds of the predicate of a statement, or of a query of a SELECT, whatever other steps stand
    between those on the predicate. If anything was requested, a statement that is prepared has the clause in
    its text, and its text is never the one without the clause. -/
theorem requested_filter_isWritten :
    (∀ steps : List Predicate.Step,
      (Predicate.ofSteps steps).Keeps (Predicate.requests steps) ∧
        ((Predicate.ofSteps steps).negated = true ↔ .negate ∈ steps)) ∧
      ∀ x : Filtered,
        x.filter.Keeps x.requests ∧ (x.filter.negated = true ↔ .negate ∈ x.filterSteps) ∧
          (x.requests ≠ [] → ∀ p, x.statement.prepare = .ok p → x.HasClause p.sql ∧
            Script.text (x.scriptWith x.filter) ≠ Script.text (x.scriptWith .empty)) := by
  have hnegated (steps : List Predicate.Step) :
      (Predicate.ofSteps steps).negated = true ↔ .negate ∈ steps := by
    rw [Predicate.ofSteps, Predicate.negated_applyAll]
    exact or_iff_right Bool.false_ne_true
  refine ⟨fun steps => ⟨Predicate.keeps_ofSteps steps, hnegated steps⟩, fun x => ⟨x.keeps_filter, ?_, ?_⟩⟩
  · rw [filter_eq_ofSteps]
    exact hnegated x.filterSteps
  · intro hx p hp
    have hclause := hasClause_of_prepare hx hp
    exact ⟨hclause, hclause.text_ne⟩

/-- The second of two united queries. Its predicate is negated before it has a term, and its second term is
    requested after a step on the first query. -/
def lateVisits : Filtered :=
  select
    [.edit (.source (.table "staff") none), .union .all, .edit (.filter .negate),
      .edit (.filter (.add .first (.comparison "day" ">" (.bound ⟨.scalar (.int 3), .integer⟩) false))),
      .edit (.source (.table "visits") none),
      .edit (.filter (.add (.joined .or) (.comparison "host" "=" .null true))),
      .edit (.groupBy ["host"])]
    1

/-- The clause of `lateVisits` stands between the source of its query and the grouping. -/
theorem requested_filter_isWritten_lateVisits :
    (lateVisits.requests ≠ [] ∧
      lateVisits.statement.prepare =
        .ok ⟨"SELECT * FROM staff UNION ALL " ++
            "SELECT * FROM visits WHERE NOT (day > ? OR NOT host IS NULL) GROUP BY host",
          [⟨.int 3, .integer⟩]⟩) ∧
      lateVisits.HasClause ("SELECT * FROM staff UNION ALL " ++
        "SELECT * FROM visits WHERE NOT (day > ? OR NOT host IS NULL) GROUP BY host") := by
  have hx : lateVisits.requests ≠ [] := List.cons_ne_nil _ _
  have hp : lateVisits.statement.prepare =
      .ok ⟨"SELECT * FROM staff UNION ALL " ++
          "SELECT * FROM visits WHERE NOT (day > ? OR NOT host IS NULL) GROUP BY host",
        [⟨.int 3, .integer⟩]⟩ := by
    rfl
  exact ⟨⟨hx, hp⟩, ((requested_filter_isWritten.2 lateVisits).2.2 hx _ hp).1⟩

/-- A first request that is rejected leaves no term behind, and still the statement is not prepared. -/
example :
    (delete "visits" [.filter (.add (.joined .and) (.comparison "day" "=" .null false))]).statement.prepare =
      .error (.nothingToJoin .and) := by
  rfl

end Filtered

end BoundSql
