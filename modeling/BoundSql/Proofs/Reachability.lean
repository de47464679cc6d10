import BoundSql.Build.Plan
import BoundSql.Proofs.Acceptance
import BoundSql.Proofs.NotedFaults

/-!
# `BoundSql.Proofs.Reachability` — what holds of every query that a caller can make

A caller makes queries, predicates and columns by steps, and a step may bring in others that were made in
the same way. Some facts hold of whatever is made so, at every depth: the cursor stands on a query, HAVING
comes with GROUP BY, terms and connectives alternate. They are kept by each step, so no rendering and no
later step has to check them again.

## Contents
- **`Node.Reachable`** says that a node is made by steps whose arguments are made by steps.
- **`Node.Sound`** is what holds of each node; `Predicate.everywhere_apply`, `CaseColumn.everywhere_apply` and
  `Select.everywhere_apply` for one step, **`Node.everywhere_sound_of_reachable`** for all of them.
- **`indexedScript?`** writes the terms of a predicate with connectives that are looked up by number.
- **`Node.exists_contains_of_failing`** finds the predicate without terms behind a fault.
- **`Select.invariants_of_reachable`** collects all of this, with what each step leaves alone.
-/

namespace BoundSql

/-! ## What steps bring in -/

/-- What the caller has made before giving it to an entry: a group, or the subquery of a comparison. -/
def Entry.arguments : Entry → List Node
  | .comparison _ _ operand _ => (Node.operand .oneOf operand).children
  | .group p _ => [.predicate p]

/-- What a step on a predicate brings in. -/
def Predicate.Step.arguments : Predicate.Step → List Node
  | .add _ e => e.arguments
  | .negate => []

/-- What an edit brings in. -/
def Edit.arguments : Edit → List Node
  | .column c => [.column c]
  | .onCase s => s.guards.map .predicate
  | .source s _ | .join _ s _ => (Node.source s).children
  | .filter s => s.arguments
  | .having p => [.predicate p]
  | .columns _ | .distinct | .labels _ | .withinGroup _ | .joinCondition _ | .groupBy _ | .orderBy _
  | .limit _ | .offset _ | .page _ _ => []

/-- What a step on a `Select` brings in. -/
def Select.Step.arguments : Select.Step → List Node
  | .edit e => e.arguments
  | .union _ | .root => []

/-- A node that a caller can make: by steps from an empty start, some of them under conditions, that
    bring in nothing but what a caller can make. A plain column and an aggregate take no steps. -/
inductive Node.Reachable : Node → Prop where
  | predicate (plans : List (Plan Predicate.Step))
      (h : ∀ step ∈ Plan.allSteps plans, ∀ n ∈ step.arguments, Reachable n) :
      Reachable (.predicate (.ofSteps (Plan.allSteps plans)))
  | plain (name : String) (label : Option String) : Reachable (.column (.plain name label))
  | aggregate (a : Aggregate) : Reachable (.column (.aggregate a))
  | case (steps : List CaseColumn.Step)
      (h : ∀ step ∈ steps, ∀ g ∈ step.guards, Reachable (.predicate g)) :
      Reachable (.column (.case (.ofSteps steps)))
  | select (plans : List (Plan Select.Step))
      (h : ∀ step ∈ Plan.allSteps plans, ∀ n ∈ step.arguments, Reachable n) :
      Reachable (.select (.ofSteps (Plan.allSteps plans)))

/-! ## What steps keep -/

namespace Node

/-- What holds of each single node that a caller can make. That a predicate has no terms is found by
    rendering it, and never noted. -/
structure Sound (n : Node) : Prop where
  noted : n.noted ≠ some .predicateEmpty
  cursor : ∀ s, n = select s → s.cursor < s.size
  grouped : ∀ q, n = query q → q.having ≠ none → q.groupBy ≠ []

/-- Nodes of most kinds have no other fact to them than the slot. -/
theorem Sound.of_noted (h : n.noted ≠ some .predicateEmpty) (hselect : ∀ s, n ≠ select s)
    (hquery : ∀ q, n ≠ query q) : n.Sound where
  noted := h
  cursor := by
    intro s hs
    exact absurd hs (hselect s)
  grouped := by
    intro q hq
    exact absurd hq (hquery q)

theorem sound_predicate_iff {p : Predicate} :
    (predicate p).Sound ↔ p.fault ≠ some .predicateEmpty :=
  ⟨fun h => h.noted, fun h => .of_noted h nofun nofun⟩

theorem sound_case_iff {c : CaseColumn} :
    (column (.case c)).Sound ↔ c.fault ≠ some .predicateEmpty :=
  ⟨fun h => h.noted, fun h => .of_noted h nofun nofun⟩

theorem sound_select_iff {s : Select} :
    (select s).Sound ↔ s.fault ≠ some .predicateEmpty ∧ s.cursor < s.size := by
  constructor
  · intro h
    exact ⟨h.noted, h.cursor s rfl⟩
  · rintro ⟨hfault, hcursor⟩
    refine ⟨hfault, ?_, nofun⟩
    rintro t ⟨⟩
    exact hcursor

theorem sound_query_iff {q : Query} : (query q).Sound ↔ (q.having ≠ none → q.groupBy ≠ []) := by
  constructor
  · intro h
    exact h.grouped q rfl
  · intro h
    refine ⟨nofun, nofun, ?_⟩
    rintro r ⟨⟩
    exact h

end Node

open Node

/-- Of two faults in a slot, the one that is kept is one of them. -/
theorem keepFirst_ne_some {slot : Option Fault} {f g : Fault} (hslot : slot ≠ some g) (hf : f ≠ g) :
    keepFirst slot f ≠ some g := by
  cases slot with
  | none =>
    rw [keepFirst_none]
    intro h
    exact hf (Option.some.inj h)
  | some f' => exact hslot

/-! ### Predicates -/

namespace Predicate

/-- The negation of a predicate does not matter to what stands in it. -/
theorem everywhere_of_negated {p : Predicate} (h : (predicate p).Everywhere Sound)
    (negated : Bool) : (predicate { p with negated := negated }).Everywhere Sound := by
  obtain ⟨hsound, hterms⟩ := everywhere_predicate.mp h
  have hfault : p.fault ≠ some .predicateEmpty := sound_predicate_iff.mp hsound
  exact everywhere_predicate.mpr ⟨sound_predicate_iff.mpr hfault, hterms⟩

end Predicate

/-- The term of an entry is as sound as what the entry brings in. -/
theorem Entry.everywhere_term {e : Entry} {t : Term} (h : e.term = .ok t)
    (he : ∀ n ∈ e.arguments, n.Everywhere Sound) : (Node.term t).Everywhere Sound := by
  refine everywhere_iff.mpr ⟨.of_noted nofun nofun nofun, ?_⟩
  cases Entry.term_eq_ok_iff.mp h with
  | @comparison field op operand negated =>
    -- The only part of a comparison is its operand, whose parts are what was brought in.
    intro c hc
    obtain rfl : c = .operand op operand := List.mem_singleton.mp hc
    refine everywhere_iff.mpr ⟨.of_noted nofun nofun nofun, ?_⟩
    intro m hm
    refine he m ?_
    cases operand with
    | subquery s => exact hm
    | null | bound p | inlined v | inlinedList vs => cases hm
  | @group p negated =>
    intro c hc
    obtain rfl : c = .predicate { p with negated := p.negated || negated } := List.mem_singleton.mp hc
    exact Predicate.everywhere_of_negated (he (.predicate p) (List.mem_singleton_self _)) _

namespace Predicate

variable {p : Predicate} {step : Step}

/-- **One step on a predicate.** -/
theorem everywhere_apply (hp : (predicate p).Everywhere Sound)
    (hstep : ∀ n ∈ step.arguments, n.Everywhere Sound) :
    (predicate (p.apply step)).Everywhere Sound := by
  cases step with
  | negate => exact everywhere_of_negated hp true
  | add role e =>
    obtain ⟨hsound, hterms⟩ := everywhere_predicate.mp hp
    rw [sound_predicate_iff] at hsound
    show (predicate (p.push role e)).Everywhere Sound
    cases hext : extend p.chain role e with
    | error f =>
      have hf : f ≠ .predicateEmpty := by
        rintro rfl
        cases extend_eq_error_iff.mp hext
      rw [push_of_error hext]
      exact everywhere_predicate.mpr ⟨sound_predicate_iff.mpr (keepFirst_ne_some hsound hf), hterms⟩
    | ok c =>
      obtain ⟨t, ht, happend⟩ := terms_push hext
      have hfault : (p.push role e).fault = p.fault := by
        rw [push, hext]
      rw [everywhere_predicate, sound_predicate_iff, hfault, happend, List.forall_mem_append]
      refine ⟨hsound, hterms, ?_⟩
      intro u hu
      obtain rfl := List.mem_singleton.mp hu
      exact e.everywhere_term ht hstep

theorem everywhere_applyAll {steps : List Step} (hp : (predicate p).Everywhere Sound)
    (h : ∀ step ∈ steps, ∀ n ∈ step.arguments, n.Everywhere Sound) :
    (predicate (p.applyAll steps)).Everywhere Sound :=
  List.foldlRecOn (motive := fun p => (predicate p).Everywhere Sound) steps apply hp
    fun _ hp step hstep => everywhere_apply hp (h step hstep)

theorem everywhere_empty : (predicate .empty).Everywhere Sound :=
  everywhere_predicate.mpr ⟨sound_predicate_iff.mpr nofun, nofun⟩

end Predicate

/-! ### Columns -/

namespace CaseColumn

variable {c : CaseColumn} {step : Step}

/-- **One step on a CASE.** -/
theorem everywhere_apply (hc : (column (.case c)).Everywhere Sound)
    (hstep : ∀ g ∈ step.guards, (predicate g).Everywhere Sound) :
    (column (.case (c.apply step))).Everywhere Sound := by
  obtain ⟨hsound, hguards⟩ := everywhere_case.mp hc
  rw [sound_case_iff] at hsound
  have hfault : (c.apply step).fault ≠ some .predicateEmpty := by
    rw [apply]
    cases hedit : c.edit step with
    | ok c' =>
      show c'.fault ≠ _
      rw [fault_of_edit hedit]
      exact hsound
    | error f =>
      refine keepFirst_ne_some hsound ?_
      rintro rfl
      cases edit_eq_error_iff.mp hedit
  rw [everywhere_case, sound_case_iff, guards_apply, List.forall_mem_append]
  exact ⟨hfault, hguards, hstep⟩

theorem everywhere_ofSteps {steps : List Step}
    (h : ∀ step ∈ steps, ∀ g ∈ step.guards, (predicate g).Everywhere Sound) :
    (column (.case (ofSteps steps))).Everywhere Sound := by
  have hempty : (column (.case .empty)).Everywhere Sound :=
    everywhere_case.mpr ⟨sound_case_iff.mpr nofun, nofun⟩
  exact List.foldlRecOn (motive := fun c => (column (.case c)).Everywhere Sound) steps apply hempty
    fun _ hc step hstep => everywhere_apply hc (h step hstep)

end CaseColumn

namespace Column

theorem everywhere_plain (name : String) (label : Option String) :
    (column (.plain name label)).Everywhere Sound :=
  everywhere_iff.mpr ⟨.of_noted nofun nofun nofun, nofun⟩

theorem everywhere_aggregate (a : Aggregate) : (column (.aggregate a)).Everywhere Sound :=
  everywhere_iff.mpr ⟨.of_noted nofun nofun nofun, nofun⟩

theorem everywhere_relabel {c : Column} (h : (column c).Everywhere Sound) (label : String) :
    (column (c.relabel label)).Everywhere Sound := by
  cases c with
  | plain name label => exact everywhere_plain _ _
  | aggregate a => exact everywhere_aggregate _
  | case c =>
    obtain ⟨hsound, hguards⟩ := everywhere_case.mp h
    have hfault : c.fault ≠ some .predicateEmpty := sound_case_iff.mp hsound
    exact everywhere_case.mpr ⟨sound_case_iff.mpr hfault, hguards⟩

/-- What an edit makes of a column is as sound as the column and what the edit brings in. -/
theorem everywhere_of_becomes {e : Edit} {c d : Column} (h : Becomes e c d)
    (hc : (column c).Everywhere Sound) (he : ∀ n ∈ e.arguments, n.Everywhere Sound) :
    (column d).Everywhere Sound := by
  cases h with
  | same => exact hc
  | relabelled label => exact everywhere_relabel hc label
  | ordered => exact everywhere_aggregate _
  | stepped hstep =>
    subst hstep
    refine CaseColumn.everywhere_apply hc ?_
    intro g hg
    exact he (.predicate g) (List.mem_map_of_mem hg)

end Column

/-! ### Queries -/

namespace Query

variable {q q' : Query} {e : Edit}

/-- The columns after an edit are made of those from before it, or brought in. -/
theorem everywhere_columns_edit (h : q.edit e = .ok q')
    (hcolumns : ∀ c ∈ q.columns, (column c).Everywhere Sound)
    (he : ∀ n ∈ e.arguments, n.Everywhere Sound) : ∀ c ∈ q'.columns, (column c).Everywhere Sound := by
  obtain ⟨kept, added, hsplit, hkept, hadded⟩ := columns_edit h
  rw [hsplit, List.forall_mem_append]
  constructor
  · generalize q.columns = columns at hcolumns hkept
    clear hsplit
    induction hkept with
    | nil => nofun
    | cons hbecomes _ ih =>
      obtain ⟨hc, hrest⟩ := List.forall_mem_cons.mp hcolumns
      exact List.forall_mem_cons.mpr ⟨Column.everywhere_of_becomes hbecomes hc he, ih hrest⟩
  · intro c hc
    rcases hadded c hc with rfl | ⟨name, rfl⟩
    · exact he (.column c) (List.mem_singleton_self _)
    · exact Column.everywhere_plain name none

/-- What is read from or joined is brought in, or was there before. -/
theorem everywhere_sources_edit (h : q.edit e = .ok q')
    (hsource : ∀ s ∈ q.source, (Node.source s).Everywhere Sound)
    (hjoins : ∀ j ∈ q.joins, (Node.source j.target).Everywhere Sound)
    (he : ∀ n ∈ e.arguments, n.Everywhere Sound) :
    (∀ s ∈ q'.source, (Node.source s).Everywhere Sound) ∧
      ∀ j ∈ q'.joins, (Node.source j.target).Everywhere Sound := by
  have hbrought {s : Source} (hs : ∀ n ∈ (Node.source s).children, n ∈ e.arguments) :
      (Node.source s).Everywhere Sound :=
    everywhere_iff.mpr ⟨.of_noted nofun nofun nofun, fun n hn => he n (hs n hn)⟩
  constructor
  · rcases source_edit h with ⟨s, label, rfl, hs⟩ | hsame
    · rw [hs]
      rintro t ⟨⟩
      exact hbrought fun _ => id
    · rw [hsame]
      exact hsource
  · have htargets : ∀ t ∈ q'.joins.map (·.target), (Node.source t).Everywhere Sound := by
      rw [targets_edit h, List.forall_mem_append, List.forall_mem_map]
      refine ⟨hjoins, ?_⟩
      intro t ht
      cases e with
      | join kind target label =>
        obtain rfl := List.mem_singleton.mp ht
        exact hbrought fun _ => id
      | _ => cases ht
    intro j hj
    exact htargets j.target (List.mem_map_of_mem hj)

/-- HAVING is brought in where there is GROUP BY, or was there before. -/
theorem everywhere_grouping_edit (h : q.edit e = .ok q') (hsound : (query q).Sound)
    (hhaving : ∀ p ∈ q.having, (predicate p).Everywhere Sound)
    (he : ∀ n ∈ e.arguments, n.Everywhere Sound) :
    (query q').Sound ∧ ∀ p ∈ q'.having, (predicate p).Everywhere Sound := by
  rw [sound_query_iff] at hsound ⊢
  obtain ⟨hgrows, ⟨p, rfl, hp, hgroup⟩ | hsame⟩ := grouping_edit h
  · refine ⟨fun _ => hgroup, ?_⟩
    rw [hp]
    rintro r ⟨⟩
    exact he (.predicate p) (List.mem_singleton_self _)
  · rw [hsame]
    refine ⟨?_, hhaving⟩
    intro hne hnil
    rw [hnil] at hgrows
    exact hsound hne (List.prefix_nil.mp hgrows)

/-- **One edit of a query.** -/
theorem everywhere_edit (h : q.edit e = .ok q') (hq : (query q).Everywhere Sound)
    (he : ∀ n ∈ e.arguments, n.Everywhere Sound) : (query q').Everywhere Sound := by
  obtain ⟨hsound, hcolumns, hsource, hjoins, hfilter, hhaving⟩ := everywhere_query.mp hq
  obtain ⟨hsound', hhaving'⟩ := everywhere_grouping_edit h hsound hhaving he
  obtain ⟨hsource', hjoins'⟩ := everywhere_sources_edit h hsource hjoins he
  refine everywhere_query.mpr
    ⟨hsound', everywhere_columns_edit h hcolumns he, hsource', hjoins', ?_, hhaving'⟩
  rw [filter_edit h]
  refine Predicate.everywhere_applyAll hfilter ?_
  intro step hstep
  cases e with
  | filter s =>
    obtain rfl := List.mem_singleton.mp hstep
    exact he
  | _ => cases hstep

theorem everywhere_empty : (query .empty).Everywhere Sound :=
  everywhere_query.mpr
    ⟨sound_query_iff.mpr fun h => absurd rfl h, nofun, nofun, nofun, Predicate.everywhere_empty, nofun⟩

end Query

/-! ### A whole `Select` -/

namespace Select

variable {s : Select} {step : Step}

/-- **One step on a `Select`.** -/
theorem everywhere_apply (hs : (select s).Everywhere Sound)
    (hstep : ∀ n ∈ step.arguments, n.Everywhere Sound) : (select (s.apply step)).Everywhere Sound := by
  obtain ⟨hsound, hqueries⟩ := everywhere_select.mp hs
  obtain ⟨hfault, hcursor⟩ := sound_select_iff.mp hsound
  have hcursor' : (s.apply step).cursor < (s.apply step).size := cursor_apply_lt hcursor step
  rw [everywhere_select, sound_select_iff]
  cases step with
  | root => exact ⟨⟨hfault, hcursor'⟩, hqueries⟩
  | union k =>
    refine ⟨⟨hfault, hcursor'⟩, ?_⟩
    show ∀ q ∈ (s.unite k).queries, _
    rw [queries_unite, List.forall_mem_append, List.forall_mem_singleton]
    exact ⟨hqueries, Query.everywhere_empty⟩
  | edit e =>
    have hlt : s.cursor < s.queries.length := by
      rw [length_queries]
      exact hcursor
    have hcurrent : s.current? = some s.queries[s.cursor] := List.getElem?_eq_getElem hlt
    cases hedit : s.queries[s.cursor].edit e with
    | error f =>
      have hf : f ≠ .predicateEmpty := by
        rintro rfl
        cases Query.edit_eq_error_iff.mp hedit
      rw [apply_edit_of_error hcurrent hedit] at hcursor' ⊢
      exact ⟨⟨keepFirst_ne_some hfault hf, hcursor'⟩, hqueries⟩
    | ok q' =>
      rw [apply_edit_of_ok hcurrent hedit] at hcursor' ⊢
      refine ⟨⟨?_, hcursor'⟩, ?_⟩
      · rw [fault_replaceCurrent]
        exact hfault
      · rw [queries_replaceCurrent]
        intro q hq
        rcases List.mem_or_eq_of_mem_set hq with hq | rfl
        · exact hqueries q hq
        · exact Query.everywhere_edit hedit (hqueries _ (List.getElem_mem hlt)) hstep

theorem everywhere_ofSteps {steps : List Step}
    (h : ∀ step ∈ steps, ∀ n ∈ step.arguments, n.Everywhere Sound) :
    (select (ofSteps steps)).Everywhere Sound := by
  have hempty : (select .empty).Everywhere Sound := by
    refine everywhere_select.mpr ⟨sound_select_iff.mpr ⟨nofun, Nat.zero_lt_one⟩, ?_⟩
    intro q hq
    obtain rfl : q = .empty := List.mem_singleton.mp hq
    exact Query.everywhere_empty
  exact List.foldlRecOn (motive := fun s => (select s).Everywhere Sound) steps apply hempty
    fun _ hs step hstep => everywhere_apply hs (h step hstep)

end Select

/-- **All steps.** Whatever a caller makes is sound, and so is everything in it. -/
theorem Node.everywhere_sound_of_reachable {n : Node} (h : n.Reachable) : n.Everywhere Sound := by
  induction h with
  | predicate plans _ ih => exact Predicate.everywhere_applyAll Predicate.everywhere_empty ih
  | plain name label => exact Column.everywhere_plain name label
  | aggregate a => exact Column.everywhere_aggregate a
  | case steps _ ih => exact CaseColumn.everywhere_ofSteps ih
  | select plans _ ih => exact Select.everywhere_ofSteps ih

/-! ## Terms and connectives by number -/

/-- The terms from number `i` on, each behind the connective with the number before its own. Where there is no
    such connective, nothing can be written. -/
def scriptFrom? (connectives : List Connective) : Nat → List Term → Option Script
  | _, [] => some []
  | 0, t :: rest => (scriptFrom? connectives 1 rest).map (t.script ++ ·)
  | i + 1, t :: rest =>
    match connectives[i]? with
    | none => none
    | some k =>
      (scriptFrom? connectives (i + 2) rest).map fun s =>
        .keyword (" " ++ k.text ++ " ") :: (t.script ++ s)

namespace Predicate

/-- The predicate written from a list of terms and a list of connectives. -/
def indexedScript? (p : Predicate) : Option Script :=
  scriptFrom? p.connectives 0 p.terms

/-- There are no terms and no connectives, or one term more than there are connectives. -/
def Alternates (p : Predicate) : Prop :=
  p.terms = [] ∧ p.connectives = [] ∨ p.terms.length = p.connectives.length + 1

theorem alternates (p : Predicate) : p.Alternates := by
  cases hc : p.chain with
  | none => exact .inl (by simp [terms, connectives, hc])
  | some c => exact .inr (by simp [terms, connectives, hc, Chain.length_terms])

end Predicate

/-- Behind the first term there is a connective for each of the others. -/
theorem scriptFrom?_links (before : List Connective) (links : List Link) :
    scriptFrom? (before ++ links.map (·.connective)) (before.length + 1) (links.map (·.term)) =
      some (linksScript links) := by
  induction links generalizing before with
  | nil => simp [scriptFrom?, linksScript]
  | cons l rest ih =>
    obtain ⟨k, t⟩ := l
    have hget : (before ++ k :: rest.map (·.connective))[before.length]? = some k := by
      rw [List.getElem?_append_right (Nat.le_refl _), Nat.sub_self, List.getElem?_cons_zero]
    have hrest := ih (before ++ [k])
    rw [List.append_assoc, List.length_append] at hrest
    rw [List.map_cons, List.map_cons, scriptFrom?, hget]
    simp only [List.singleton_append, List.length_singleton] at hrest
    rw [hrest, linksScript]
    rfl

/-- **Connectives are never missing.** -/
theorem Predicate.indexedScript?_eq {p : Predicate} (hfault : p.fault = none) (hterms : p.terms ≠ []) :
    p.indexedScript? = some p.script := by
  obtain ⟨chain, negated, fault⟩ := p
  cases hfault
  cases chain with
  | none => exact absurd rfl hterms
  | some c =>
    obtain ⟨first, rest⟩ := c
    have hrest : scriptFrom? (rest.map (·.connective)) 1 (rest.map (·.term)) = some (linksScript rest) :=
      scriptFrom?_links [] rest
    show (scriptFrom? (rest.map (·.connective)) 1 (rest.map (·.term))).map (first.script ++ ·) = _
    rw [hrest, Predicate.script, chainScript, Chain.script]
    rfl

/-! ## Predicates without terms -/

namespace Node

variable {n : Node}

/-- The checks of a part of a query. -/
def checks : Node → List Check
  | select s => s.checks
  | query q => q.checks
  | column c => c.checks
  | source s => s.checks
  | predicate p => p.checks
  | term t => t.checks
  | operand op o => o.checks op
  | statement _ | row _ | cell _ => []

/-- The check that a predicate has terms, where it fails. -/
def termless : Check := ⟨false, .predicateEmpty⟩

theorem fault_of_mem_notedChecks {fault : Option Fault} (h : termless ∈ notedChecks fault) :
    fault = some .predicateEmpty := by
  cases fault with
  | none => cases h
  | some f =>
    cases List.mem_singleton.mp h
    rfl

/-- What an operand needs beside its operator has nothing to do with predicates. -/
theorem exists_subquery_of_mem_checks {op : Operator} {o : Operand} (h : termless ∈ o.checks op) :
    ∃ s, o = .subquery s ∧ termless ∈ s.checks := by
  cases o with
  | null => simp [termless, Operand.checks] at h
  | bound p => cases op <;> simp [termless, Operand.checks, Param.checks] at h
  | inlined v => cases op <;> simp [termless, Operand.checks, Value.checks] at h
  | inlinedList vs => cases op <;> simp [termless, Operand.checks, listChecks] at h
  | subquery s =>
    rcases List.mem_cons.mp h with h | h
    · cases congrArg Check.fault h
    · exact ⟨s, rfl, h⟩

theorem mem_checks_query {q : Query} (h : termless ∈ q.checks) :
    ∃ c ∈ (query q).children, termless ∈ c.checks := by
  rw [Query.checks_eq] at h
  simp only [List.mem_append, columnsChecks_eq_flatMap, joinsChecks_eq_flatMap, List.mem_flatMap] at h
  rcases h with ((((⟨c, hc, hmem⟩ | hsource) | ⟨j, hj, hmem⟩) | hfilter) | hhaving) | horder
  · exact ⟨column c, by simp [children, hc], hmem⟩
  · cases hq : q.source with
    | none =>
      rw [hq] at hsource
      cases List.mem_singleton.mp hsource
    | some t =>
      refine ⟨source t, by simp [children, hq], ?_⟩
      rw [hq] at hsource
      cases t with
      | table name => cases congrArg Check.fault (List.mem_singleton.mp hsource)
      | subquery s => exact hsource
  · refine ⟨source j.target, ?_, hmem⟩
    simp only [children, List.mem_append, List.mem_map]
    exact .inl (.inr ⟨j, hj, rfl⟩)
  · refine ⟨predicate q.filter, by simp [children], ?_⟩
    rw [Predicate.whereChecks] at hfilter
    split at hfilter
    · cases hfilter
    · exact hfilter
  · cases hq : q.having with
    | none =>
      rw [hq] at hhaving
      cases hhaving
    | some p =>
      rw [hq] at hhaving
      exact ⟨predicate p, by simp [children, hq], hhaving⟩
  · obtain ⟨o, -, ho⟩ := List.mem_map.mp horder
    cases congrArg Check.fault ho

theorem mem_checks_predicate {p : Predicate} (h : termless ∈ p.checks) :
    p.fault = some .predicateEmpty ∨ p.terms = [] ∨ ∃ t ∈ p.terms, termless ∈ t.checks := by
  obtain ⟨chain, negated, fault⟩ := p
  rw [Predicate.checks] at h
  rcases List.mem_append.mp h with h | h
  · exact .inl (fault_of_mem_notedChecks h)
  · cases chain with
    | none => exact .inr (.inl rfl)
    | some c =>
      obtain ⟨first, rest⟩ := c
      refine .inr (.inr ?_)
      rcases List.mem_cons.mp h with h | h
      · cases h
      · rw [Chain.checks, linksChecks_eq_flatMap, ← List.flatMap_cons] at h
        exact List.mem_flatMap.mp h

/-- A node that lacks terms has a part that lacks them, or is a predicate without terms itself. -/
theorem mem_checks (h : termless ∈ n.checks) :
    n.noted = some .predicateEmpty ∨ (∃ p, n = predicate p ∧ p.terms = []) ∨
      ∃ c ∈ n.children, termless ∈ c.checks := by
  cases n with
  | statement s | row cells | cell c => cases h
  | select s =>
    have hselect : termless ∈ s.checks := h
    rw [Select.checks_eq] at hselect
    rcases List.mem_append.mp hselect with hnoted | hqueries
    · exact .inl (fault_of_mem_notedChecks hnoted)
    · obtain ⟨q, hq, hmem⟩ := List.mem_flatMap.mp hqueries
      exact .inr (.inr ⟨query q, List.mem_map_of_mem hq, hmem⟩)
  | query q => exact .inr (.inr (mem_checks_query h))
  | column c =>
    cases c with
    | plain name label | aggregate a => cases h
    | case c =>
      obtain ⟨branches, otherwise, label, fault⟩ := c
      have hcase : termless ∈ (CaseColumn.mk branches otherwise label fault).checks := h
      rw [CaseColumn.checks, branchesChecks_eq_flatMap] at hcase
      rcases List.mem_append.mp hcase with hnoted | hbranches
      · exact .inl (fault_of_mem_notedChecks hnoted)
      · rcases List.mem_cons.mp hbranches with hempty | hbranches
        · cases congrArg Check.fault hempty
        · obtain ⟨b, hb, hmem⟩ := List.mem_flatMap.mp hbranches
          exact .inr (.inr ⟨predicate b.guard, List.mem_map_of_mem hb, hmem⟩)
  | source s =>
    cases s with
    | table name => cases h
    | subquery s => exact .inr (.inr ⟨select s, List.mem_singleton_self _, h⟩)
  | predicate p =>
    rcases mem_checks_predicate h with hnoted | hterms | ⟨t, ht, hmem⟩
    · exact .inl hnoted
    · exact .inr (.inl ⟨p, rfl, hterms⟩)
    · exact .inr (.inr ⟨term t, List.mem_map_of_mem ht, hmem⟩)
  | term t =>
    cases t with
    | comparison c =>
      obtain ⟨field, operator, operand, negated⟩ := c
      exact .inr (.inr ⟨.operand operator operand, List.mem_singleton_self _, h⟩)
    | group p => exact .inr (.inr ⟨predicate p, List.mem_singleton_self _, h⟩)
  | operand op o =>
    obtain ⟨s, rfl, hmem⟩ := exists_subquery_of_mem_checks h
    exact .inr (.inr ⟨select s, List.mem_singleton_self _, hmem⟩)

/-- Where terms are lacking, there is a predicate without terms. -/
theorem exists_contains_of_failing {n : Node} (hn : n.Everywhere Sound) (h : termless ∈ n.checks) :
    ∃ p, n.Contains (predicate p) ∧ p.terms = [] := by
  rcases mem_checks h with hnoted | ⟨p, rfl, hterms⟩ | ⟨c, hc, hmem⟩
  · exact absurd hnoted (hn n .self).noted
  · exact ⟨p, .self, hterms⟩
  · obtain ⟨p, hp, hterms⟩ := exists_contains_of_failing ((everywhere_iff.mp hn).2 c hc) hmem
    exact ⟨p, .part hc hp, hterms⟩
termination_by sizeOf n
decreasing_by exact sizeOf_lt_of_mem_children hc

end Node

/-! ## The law of every reachable `Select` -/

namespace Select

variable {s : Select}

/-- How each query is united with those before it. The first one is not. -/
def links (s : Select) : List (Option UnionKind) :=
  none :: s.unions.map fun u => some u.kind

/-- What a step leaves alone: an edit everything but the query under the cursor and the slot, a union all
    queries there are, and a move of the cursor everything else. -/
def Frames (s t : Select) : Step → Prop
  | .edit _ =>
    t.queries.length = s.queries.length ∧ t.cursor = s.cursor ∧ t.links = s.links ∧
      ∀ i, i ≠ s.cursor → t.queries[i]? = s.queries[i]?
  | .union k =>
    t.queries = s.queries ++ [.empty] ∧ t.cursor = s.queries.length ∧ t.links = s.links ++ [some k] ∧
      t.fault = s.fault
  | .root => t = { s with cursor := 0 }

theorem links_replaceCurrent (s : Select) (q : Query) : (s.replaceCurrent q).links = s.links := by
  obtain ⟨head, unions, cursor, fault⟩ := s
  cases cursor with
  | zero => rfl
  | succ i =>
    have hkinds : (unions.modify i fun u => { u with query := q }).map (fun u => some u.kind) =
        unions.map fun u => some u.kind := by
      have hsame : (unions.modify i fun u => { u with query := q }).map (fun u => some u.kind) =
          (unions.map fun u => some u.kind).modify i id := by
        refine map_modify ?_ unions i
        intro u
        rfl
      rw [hsame, List.modify_id]
    exact congrArg (none :: ·) hkinds

theorem frames_apply (s : Select) (step : Step) : s.Frames (s.apply step) step := by
  cases step with
  | root => rfl
  | union k =>
    have hlinks : (s.unite k).links = s.links ++ [some k] := by
      simp [links, unite]
    exact ⟨queries_unite s k, s.length_queries.symm, hlinks, rfl⟩
  | edit e =>
    rcases s.apply_edit_cases e with ⟨-, hsame⟩ | ⟨q, f, -, -, hnote⟩ | ⟨q, q', -, -, hchange⟩
    · rw [hsame]
      exact ⟨rfl, rfl, rfl, fun _ _ => rfl⟩
    · rw [hnote]
      exact ⟨rfl, rfl, rfl, fun _ _ => rfl⟩
    · rw [hchange]
      refine ⟨?_, cursor_replaceCurrent s q', links_replaceCurrent s q', fun i hi => ?_⟩
      · rw [queries_replaceCurrent, List.length_set]
      · rw [queries_replaceCurrent, List.getElem?_set_ne (Ne.symm hi)]

/-- Exactly the first query has no link. -/
theorem links_eq_none_iff (s : Select) (i : Nat) : s.links[i]? = some none ↔ i = 0 := by
  cases i with
  | zero => exact iff_of_true rfl rfl
  | succ j => simp [links]

/-- **The law of every reachable `Select`.**
    * In it, and in every `Select` at any depth of it: there is a query, the cursor stands on one, exactly the
      queries behind the first one have a link, and those with HAVING have GROUP BY.
    * In every predicate of it, terms and connectives alternate, so that they can be written by number.
    * Each step leaves alone what it does not act on.
    * If a rendering lacks terms, then because a predicate in it has none. -/
theorem invariants_of_reachable (h : (Node.select s).Reachable) :
    (∀ t, (Node.select s).Contains (.select t) →
      t.queries ≠ [] ∧ t.cursor < t.queries.length ∧ (∃ q, t.current? = some q) ∧
        t.links.length = t.queries.length ∧ (∀ i, t.links[i]? = some none ↔ i = 0) ∧
          ∀ q ∈ t.queries, q.having ≠ none → q.groupBy ≠ []) ∧
      (∀ p, (Node.select s).Contains (.predicate p) →
        p.Alternates ∧ (p.fault = none → p.terms ≠ [] → p.indexedScript? = some p.script)) ∧
      (∀ step, s.Frames (s.apply step) step) ∧
      ∀ earlier, ((Part.statement (.select s)).renderAfter earlier).outcome = .error .predicateEmpty →
        ∃ p, (Node.select s).Contains (.predicate p) ∧ p.terms = [] := by
  have hall := everywhere_sound_of_reachable h
  refine ⟨?_, ?_, s.frames_apply, ?_⟩
  · intro t ht
    have hcursor : t.cursor < t.queries.length := by
      rw [length_queries]
      exact (hall _ ht).cursor t rfl
    have hgrouped : ∀ q ∈ t.queries, q.having ≠ none → q.groupBy ≠ [] := by
      intro q hq
      have hcontains : (Node.select s).Contains (.query q) :=
        ht.trans (.part (List.mem_map_of_mem hq) .self)
      exact (hall _ hcontains).grouped q rfl
    refine ⟨List.cons_ne_nil _ _, hcursor, ⟨_, List.getElem?_eq_getElem hcursor⟩, ?_,
      t.links_eq_none_iff, hgrouped⟩
    simp [links, size]
  · intro p _
    exact ⟨p.alternates, Predicate.indexedScript?_eq⟩
  · intro earlier houtcome
    have hfault : Script.fault? s.script = some .predicateEmpty := by
      rw [Part.renderAfter, Script.renderAfter_eq] at houtcome
      exact Script.render_eq_error_iff.mp houtcome
    have hfirst : firstFailure s.checks = some .predicateEmpty := s.obeys_script.symm.trans hfault
    exact exists_contains_of_failing hall (mem_of_firstFailure hfirst)

/-- Hosts that were visited. -/
def visitPlans : List (Plan Step) :=
  [.step (.edit (.source (.table "visits") none)), .step (.edit (.columns ["host"]))]

/-- Hosts that were visited, counted, and all hosts under a CASE whose guard was forgotten. -/
def hostPlans : List (Plan Step) :=
  [.step (.edit (.source (.subquery (.ofSteps (Plan.allSteps visitPlans))) (some "v"))),
    .onlyIf true
      [.step (.edit (.groupBy ["host"])),
        .step (.edit (.having (.ofSteps [.add .first (.comparison "COUNT(*)" ">" (.inlined (.int 1)) false)])))],
    .step (.union .all), .step (.edit (.column (.case .empty))), .step (.edit (.onCase (.branch .empty))),
    .step (.edit (.source (.table "hosts") none))]

/-- The law holds of the hosts and of the visits in them, and finds the forgotten guard. -/
theorem invariants_of_reachable_hosts :
    ((Node.select (.ofSteps (Plan.allSteps hostPlans))).Reachable ∧
      (Node.select (.ofSteps (Plan.allSteps hostPlans))).Contains
        (.select (.ofSteps (Plan.allSteps visitPlans))) ∧
      ((Part.statement (.select (.ofSteps (Plan.allSteps hostPlans)))).renderAfter []).outcome =
        .error .predicateEmpty) ∧
      (∃ q, (ofSteps (Plan.allSteps visitPlans)).current? = some q) ∧
      ∃ p, (Node.select (.ofSteps (Plan.allSteps hostPlans))).Contains (.predicate p) ∧ p.terms = [] := by
  have hempty : (Node.predicate .empty).Reachable := .predicate [] (by rintro step ⟨⟩)
  have hvisits : (Node.select (.ofSteps (Plan.allSteps visitPlans))).Reachable := by
    refine .select visitPlans ?_
    simp [visitPlans, Plan.allSteps, Plan.steps, Step.arguments, Edit.arguments, children]
  have hcount : (Node.predicate (.ofSteps
      [.add .first (.comparison "COUNT(*)" ">" (.inlined (.int 1)) false)])).Reachable := by
    refine .predicate [.step (.add .first (.comparison "COUNT(*)" ">" (.inlined (.int 1)) false))] ?_
    simp [Plan.allSteps, Plan.steps, Predicate.Step.arguments, Entry.arguments, children]
  have hcase : (Node.column (.case .empty)).Reachable := .case [] (by rintro step ⟨⟩)
  have hhosts : (Node.select (.ofSteps (Plan.allSteps hostPlans))).Reachable := by
    refine .select hostPlans ?_
    simp [hostPlans, Plan.allSteps, Plan.steps, Step.arguments, Edit.arguments, CaseColumn.Step.guards,
      children, hempty, hvisits, hcount, hcase]
  have hinside : (Node.select (.ofSteps (Plan.allSteps hostPlans))).Contains
      (.select (.ofSteps (Plan.allSteps visitPlans))) := by
    have hhead : Node.query (ofSteps (Plan.allSteps hostPlans)).head ∈
        (Node.select (.ofSteps (Plan.allSteps hostPlans))).children := List.mem_cons_self
    have hsource : Node.source (.subquery (.ofSteps (Plan.allSteps visitPlans))) ∈
        (Node.query (ofSteps (Plan.allSteps hostPlans)).head).children := List.mem_cons_self
    exact .part hhead (.part hsource (.part List.mem_cons_self .self))
  have houtcome : ((Part.statement (.select (.ofSteps (Plan.allSteps hostPlans)))).renderAfter []).outcome =
      .error .predicateEmpty := by
    rfl
  obtain ⟨hselects, -, -, hrender⟩ := invariants_of_reachable hhosts
  exact ⟨⟨hhosts, hinside, houtcome⟩, (hselects _ hinside).2.2.1, hrender [] houtcome⟩

end Select

end BoundSql
