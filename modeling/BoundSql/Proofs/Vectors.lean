import BoundSql.Proofs.Reachability

/-!
# `BoundSql.Proofs.Vectors` — predicates and queries kept in plain lists

A `Chain` has a first term and a `Select` a first query, so connectives without terms cannot be written down,
nor a first query with a link. A builder that keeps its parts in vectors has no such types: the terms are in one
vector and the connectives in another, and each query carries a link that may be there or not. Nothing but the
steps keeps these in order, and whoever reads them by position relies on it. Here the vectors are spelled out as
lists, with steps that push onto them and readers that look up by position. What the steps keep is proved of the
lists alone; then the lists are shown to go through the same states as the types of the tree.

## Contents
- **`TermVectors`** is a predicate in two lists. `TermVectors.alternates_apply` is the step,
  **`TermVectors.alternates_ofSteps`** the run, and **`TermVectors.script?`** reads the lists by position.
- **`Predicate.vectors_apply`** and **`Predicate.vectors_ofSteps`** tie it to `Predicate`,
  **`TermVectors.alternates_iff`** says that predicates are nothing else, and **`TermVectors.script?_ofSteps`** that
  both are written alike.
- **`QueryVector`** is a `Select` in one list. `QueryVector.isLinked_next` is the step,
  **`QueryVector.isLinked_ofSteps`** the run, which never looks up a query that is not there.
- **`Select.vector_apply`**, **`Select.vector_ofSteps`**, **`QueryVector.isLinked_iff`** and
  **`QueryVector.script_ofSteps`** do for it what the others do for predicates.
-/

namespace BoundSql

/-! ## Terms and connectives -/

/-- A predicate with its terms in one list and its connectives in another. -/
structure TermVectors where
  terms : List Term
  connectives : List Connective
  negated : Bool
  fault : Option Fault

namespace TermVectors

/-- Two empty lists. -/
def empty : TermVectors where
  terms := []
  connectives := []
  negated := false
  fault := none

/-- Notes a fault. -/
def note (w : TermVectors) (f : Fault) : TermVectors :=
  { w with fault := keepFirst w.fault f }

/-- Pushes the first term, or notes why there is none. -/
def pushFirst (w : TermVectors) (term : Except Fault Term) : TermVectors :=
  if w.terms.isEmpty then
    match term with
    | .ok t => { w with terms := w.terms ++ [t] }
    | .error f => w.note f
  else w.note .predicateStarted

/-- Pushes a connective and the term behind it, or notes why there is none. -/
def pushNext (w : TermVectors) (k : Connective) (term : Except Fault Term) : TermVectors :=
  if w.terms.isEmpty then w.note (.nothingToJoin k)
  else
    match term with
    | .ok t => { w with connectives := w.connectives ++ [k], terms := w.terms ++ [t] }
    | .error f => w.note f

/-- Carries out a step. -/
def apply (w : TermVectors) : Predicate.Step → TermVectors
  | .add .first e => w.pushFirst e.term
  | .add (.joined k) e => w.pushNext k e.term
  | .negate => { w with negated := true }

/-- The lists made by steps in order. -/
def ofSteps (steps : List Predicate.Step) : TermVectors :=
  steps.foldl apply empty

/-- Both lists are empty, or there is one term more than there are connectives. -/
def Alternates (w : TermVectors) : Prop :=
  w.terms = [] ∧ w.connectives = [] ∨ w.terms.length = w.connectives.length + 1

variable {w : TermVectors}

/-- Without terms there are no connectives. -/
theorem Alternates.connectives_eq_nil (h : w.Alternates) (hterms : w.terms = []) : w.connectives = [] := by
  rcases h with ⟨-, hnone⟩ | hlength
  · exact hnone
  · rw [hterms] at hlength
    exact absurd hlength (Nat.zero_ne_add_one _)

/-- With a term there is one more of them. -/
theorem Alternates.length_terms (h : w.Alternates) (hterms : w.terms ≠ []) :
    w.terms.length = w.connectives.length + 1 := by
  rcases h with ⟨hempty, -⟩ | hlength
  · exact absurd hempty hterms
  · exact hlength

/-! ### What the steps keep -/

theorem alternates_pushFirst (h : w.Alternates) (term : Except Fault Term) :
    (w.pushFirst term).Alternates := by
  unfold pushFirst
  by_cases hterms : w.terms.isEmpty = true
  · rw [if_pos hterms]
    cases term with
    | error f => exact h
    | ok t =>
      -- Without terms there are no connectives either, so the new term is the one more.
      have hempty : w.terms = [] := List.isEmpty_iff.mp hterms
      refine .inr ?_
      show (w.terms ++ [t]).length = w.connectives.length + 1
      rw [hempty, h.connectives_eq_nil hempty]
      rfl
  · rw [if_neg hterms]
    exact h

theorem alternates_pushNext (h : w.Alternates) (k : Connective) (term : Except Fault Term) :
    (w.pushNext k term).Alternates := by
  unfold pushNext
  by_cases hterms : w.terms.isEmpty = true
  · rw [if_pos hterms]
    exact h
  · rw [if_neg hterms]
    cases term with
    | error f => exact h
    | ok t =>
      have hlength := h.length_terms fun hempty => hterms (List.isEmpty_iff.mpr hempty)
      refine .inr ?_
      show (w.terms ++ [t]).length = (w.connectives ++ [k]).length + 1
      rw [List.length_append, List.length_append, hlength]
      rfl

theorem alternates_apply (h : w.Alternates) (step : Predicate.Step) : (w.apply step).Alternates := by
  cases step with
  | add role e =>
    cases role with
    | first => exact alternates_pushFirst h e.term
    | joined k => exact alternates_pushNext h k e.term
  | negate => exact h

/-- **Terms and connectives stay in step**, whatever steps are carried out. -/
theorem alternates_ofSteps (steps : List Predicate.Step) : (ofSteps steps).Alternates := by
  have hrun (w : TermVectors) (h : w.Alternates) : (steps.foldl apply w).Alternates := by
    induction steps generalizing w with
    | nil => exact h
    | cons step rest ih => exact ih (w.apply step) (alternates_apply h step)
  exact hrun empty (.inl ⟨rfl, rfl⟩)

/-! ### Reading by position -/

/-- The predicate as a script: a noted fault comes first, then the lengths are compared, then each term is
    written behind the connective at the position before its own. There is no script if one is not there. -/
def script? (w : TermVectors) : Option Script :=
  match w.fault with
  | some f => some [.fault f]
  | none =>
    if w.terms.length = w.connectives.length + 1 then scriptFrom? w.connectives 0 w.terms
    else some [.fault .predicateEmpty]

theorem script?_of_fault {f : Fault} (h : w.fault = some f) : w.script? = some [.fault f] := by
  rw [script?, h]

theorem script?_of_length (hfault : w.fault = none) (hlength : w.terms.length = w.connectives.length + 1) :
    w.script? = scriptFrom? w.connectives 0 w.terms := by
  rw [script?, hfault]
  exact if_pos hlength

theorem script?_of_length_ne (hfault : w.fault = none)
    (hlength : w.terms.length ≠ w.connectives.length + 1) : w.script? = some [.fault .predicateEmpty] := by
  rw [script?, hfault]
  exact if_neg hlength

end TermVectors

/-! ### Predicates -/

/-- The predicate in two lists. -/
def Predicate.vectors (p : Predicate) : TermVectors where
  terms := p.terms
  connectives := p.connectives
  negated := p.negated
  fault := p.fault

namespace Predicate

theorem alternates_vectors (p : Predicate) : p.vectors.Alternates :=
  p.alternates

theorem vectors_push_first (p : Predicate) (e : Entry) :
    (p.push .first e).vectors = p.vectors.pushFirst e.term := by
  obtain ⟨chain, negated, fault⟩ := p
  cases chain with
  | some c => rfl
  | none =>
    unfold push extend
    cases e.term <;> rfl

theorem vectors_push_joined (p : Predicate) (k : Connective) (e : Entry) :
    (p.push (.joined k) e).vectors = p.vectors.pushNext k e.term := by
  obtain ⟨chain, negated, fault⟩ := p
  cases chain with
  | none => rfl
  | some c =>
    obtain ⟨first, rest⟩ := c
    unfold push extend
    cases e.term with
    | error f => rfl
    | ok t =>
      -- The new link is split between the two lists.
      have hterms : (rest ++ [Link.mk k t]).map (·.term) = rest.map (·.term) ++ [t] := List.map_append
      have hconnectives : (rest ++ [Link.mk k t]).map (·.connective) = rest.map (·.connective) ++ [k] :=
        List.map_append
      show TermVectors.mk (first :: (rest ++ [Link.mk k t]).map (·.term))
        ((rest ++ [Link.mk k t]).map (·.connective)) negated fault = _
      rw [hterms, hconnectives]
      rfl

/-- A step on the predicate is the step on its lists. -/
theorem vectors_apply (p : Predicate) (step : Step) : (p.apply step).vectors = p.vectors.apply step := by
  cases step with
  | add role e =>
    cases role with
    | first => exact p.vectors_push_first e
    | joined k => exact p.vectors_push_joined k e
  | negate => rfl

/-- **The lists follow the predicate** through every run. -/
theorem vectors_ofSteps (steps : List Step) : (ofSteps steps).vectors = TermVectors.ofSteps steps := by
  have hrun (p : Predicate) : (p.applyAll steps).vectors = steps.foldl TermVectors.apply p.vectors := by
    induction steps generalizing p with
    | nil => rfl
    | cons step rest ih =>
      rw [List.foldl_cons, ← vectors_apply]
      exact ih (p.apply step)
  exact hrun empty

/-- The lists of a predicate are written as the predicate is, and no connective is missing. -/
theorem script?_vectors (p : Predicate) : p.vectors.script? = some p.script := by
  cases hfault : p.fault with
  | some f => rw [script_of_fault hfault, TermVectors.script?_of_fault hfault]
  | none =>
    by_cases hterms : p.terms = []
    · have hlength : p.vectors.terms.length ≠ p.vectors.connectives.length + 1 := by
        show p.terms.length ≠ p.connectives.length + 1
        rw [hterms]
        exact Nat.zero_ne_add_one _
      rw [TermVectors.script?_of_length_ne hfault hlength]
      obtain ⟨chain, negated, fault⟩ := p
      cases hfault
      cases chain with
      | none => rfl
      | some c => cases hterms
    · have hlength : p.vectors.terms.length = p.vectors.connectives.length + 1 :=
        p.alternates_vectors.length_terms hterms
      rw [TermVectors.script?_of_length hfault hlength]
      exact indexedScript?_eq hfault hterms

end Predicate

/-- Predicates are just the pairs of lists that alternate. -/
theorem TermVectors.alternates_iff {w : TermVectors} : w.Alternates ↔ ∃ p : Predicate, p.vectors = w := by
  constructor
  · intro h
    obtain ⟨terms, connectives, negated, fault⟩ := w
    cases terms with
    | nil =>
      have hconnectives : connectives = [] := h.connectives_eq_nil rfl
      subst hconnectives
      exact ⟨⟨none, negated, fault⟩, rfl⟩
    | cons first rest =>
      have hlength : rest.length = connectives.length := Nat.succ.inj (h.length_terms (List.cons_ne_nil _ _))
      let links := (connectives.zip rest).map fun link => Link.mk link.1 link.2
      have hterms : links.map (·.term) = rest := by
        rw [List.map_map]
        exact List.map_snd_zip hlength.le
      have hconnectives : links.map (·.connective) = connectives := by
        rw [List.map_map]
        exact List.map_fst_zip hlength.ge
      refine ⟨⟨some ⟨first, links⟩, negated, fault⟩, ?_⟩
      show TermVectors.mk (first :: links.map (·.term)) (links.map (·.connective)) negated fault = _
      rw [hterms, hconnectives]
  · rintro ⟨p, rfl⟩
    exact p.alternates_vectors

/-- Lists that alternate have a connective at every position where one is looked up. -/
theorem TermVectors.exists_script?_eq {w : TermVectors} (h : w.Alternates) : ∃ s, w.script? = some s := by
  obtain ⟨p, rfl⟩ := alternates_iff.mp h
  exact ⟨p.script, p.script?_vectors⟩

/-- Whatever steps are carried out, the lists are written as the predicate of these steps is. -/
theorem TermVectors.script?_ofSteps (steps : List Predicate.Step) :
    (ofSteps steps).script? = some (Predicate.ofSteps steps).script := by
  rw [← Predicate.vectors_ofSteps]
  exact (Predicate.ofSteps steps).script?_vectors

/-! ## Queries and links -/

/-- A query with the link to the one before it, which the first one has not. -/
structure LinkedQuery where
  link : Option UnionKind
  query : Query

/-- A query behind the words of its link. -/
def LinkedQuery.script (l : LinkedQuery) : Script :=
  match l.link with
  | none => l.query.script
  | some k => .keyword k.words :: l.query.script

/-- A `Select` with all its queries in one list. -/
structure QueryVector where
  chain : List LinkedQuery
  cursor : Nat
  fault : Option Fault

namespace QueryVector

/-- One empty query, with the cursor on it. -/
def empty : QueryVector where
  chain := [⟨none, .empty⟩]
  cursor := 0
  fault := none

/-- Notes a fault. -/
def note (w : QueryVector) (f : Fault) : QueryVector :=
  { w with fault := keepFirst w.fault f }

/-- Changes the query under the cursor, or notes why the change does not fit. There has to be a query at that
    position. -/
def edit? (w : QueryVector) (e : Edit) : Option QueryVector :=
  match w.chain[w.cursor]? with
  | none => none
  | some l =>
    match l.query.edit e with
    | .ok q => some { w with chain := w.chain.set w.cursor { l with query := q } }
    | .error f => some (w.note f)

/-- Pushes an empty query with a link and moves the cursor to the last position. -/
def link (w : QueryVector) (k : UnionKind) : QueryVector :=
  let chain := w.chain ++ [⟨some k, .empty⟩]
  { w with chain := chain, cursor := chain.length - 1 }

/-- Carries out a step, if the positions that it looks up are there. -/
def next? (w : QueryVector) : Select.Step → Option QueryVector
  | .edit e => w.edit? e
  | .union k => some (w.link k)
  | .root => some { w with cursor := 0 }

/-- Carries out steps in order. -/
def run? (w : QueryVector) : List Select.Step → Option QueryVector
  | [] => some w
  | step :: rest => (w.next? step).bind fun v => v.run? rest

/-- The list made by steps in order. -/
def ofSteps? (steps : List Select.Step) : Option QueryVector :=
  empty.run? steps

/-- The cursor is on a query, and exactly the first query has no link. -/
structure IsLinked (w : QueryVector) : Prop where
  cursor : w.cursor < w.chain.length
  links : ∀ i, (w.chain.map (·.link))[i]? = some none ↔ i = 0

variable {w : QueryVector}

/-! ### What the steps keep -/

theorem edit?_of_ok {e : Edit} {l : LinkedQuery} {q : Query} (hl : w.chain[w.cursor]? = some l)
    (he : l.query.edit e = .ok q) :
    w.edit? e = some { w with chain := w.chain.set w.cursor { l with query := q } } := by
  simp only [edit?, hl, he]

theorem edit?_of_error {e : Edit} {l : LinkedQuery} {f : Fault} (hl : w.chain[w.cursor]? = some l)
    (he : l.query.edit e = .error f) : w.edit? e = some (w.note f) := by
  simp only [edit?, hl, he]

/-- Another query at the same position has the same link. -/
theorem map_link_set {l : LinkedQuery} (hl : w.chain[w.cursor]? = some l) (q : Query) :
    (w.chain.set w.cursor { l with query := q }).map (·.link) = w.chain.map (·.link) := by
  refine List.ext_getElem? fun i => ?_
  rw [List.map_set]
  by_cases hi : w.cursor = i
  · subst hi
    have hlength : w.cursor < (w.chain.map (·.link)).length := by
      rw [List.length_map]
      exact (List.getElem?_eq_some_iff.mp hl).1
    rw [List.getElem?_set_self hlength, List.getElem?_map, hl]
    rfl
  · rw [List.getElem?_set_ne hi]

theorem isLinked_link (h : w.IsLinked) (k : UnionKind) : (w.link k).IsLinked where
  cursor := by
    have hlength : (w.link k).chain.length = w.chain.length + 1 := List.length_append
    show (w.link k).chain.length - 1 < (w.link k).chain.length
    rw [hlength]
    exact Nat.lt_succ_self _
  links i := by
    have hmap : (w.link k).chain.map (·.link) = w.chain.map (·.link) ++ [some k] := List.map_append
    rw [hmap]
    by_cases hi : i < (w.chain.map (·.link)).length
    · rw [List.getElem?_append_left hi]
      exact h.links i
    · -- There was a query before, so the new one is not the first one.
      have hpos : i ≠ 0 := by
        rintro rfl
        rw [List.length_map] at hi
        exact hi (Nat.zero_lt_of_lt h.cursor)
      refine iff_of_false ?_ hpos
      rw [List.getElem?_append_right (Nat.le_of_not_lt hi)]
      intro hnone
      have hmem : none ∈ [some k] := List.mem_of_getElem? hnone
      cases List.mem_singleton.mp hmem

theorem isLinked_edit (h : w.IsLinked) (e : Edit) : ∃ v, w.edit? e = some v ∧ v.IsLinked := by
  obtain ⟨l, hl⟩ : ∃ l, w.chain[w.cursor]? = some l := ⟨_, List.getElem?_eq_getElem h.cursor⟩
  cases he : l.query.edit e with
  | error f => exact ⟨_, edit?_of_error hl he, h.cursor, h.links⟩
  | ok q =>
    refine ⟨_, edit?_of_ok hl he, ?_, ?_⟩
    · show w.cursor < (w.chain.set w.cursor { l with query := q }).length
      rw [List.length_set]
      exact h.cursor
    · show ∀ i, ((w.chain.set w.cursor { l with query := q }).map (·.link))[i]? = some none ↔ i = 0
      rw [map_link_set hl]
      exact h.links

theorem isLinked_next (h : w.IsLinked) (step : Select.Step) : ∃ v, w.next? step = some v ∧ v.IsLinked := by
  cases step with
  | edit e => exact isLinked_edit h e
  | union k => exact ⟨_, rfl, isLinked_link h k⟩
  | root => exact ⟨_, rfl, Nat.zero_lt_of_lt h.cursor, h.links⟩

/-- **No step looks for a query that is not there**, whatever steps are carried out. -/
theorem isLinked_ofSteps (steps : List Select.Step) : ∃ w, ofSteps? steps = some w ∧ w.IsLinked := by
  have hrun (w : QueryVector) (h : w.IsLinked) : ∃ v, w.run? steps = some v ∧ v.IsLinked := by
    induction steps generalizing w with
    | nil => exact ⟨w, rfl, h⟩
    | cons step rest ih =>
      obtain ⟨v, hv, hlinked⟩ := isLinked_next h step
      rw [run?, hv]
      exact ih v hlinked
  refine hrun empty ⟨Nat.zero_lt_one, ?_⟩
  intro i
  cases i with
  | zero => exact iff_of_true rfl rfl
  | succ j => simp [empty]

/-- All queries as a script, unless a fault was noted. -/
def script (w : QueryVector) : Script :=
  match w.fault with
  | some f => [.fault f]
  | none => w.chain.flatMap LinkedQuery.script

end QueryVector

/-! ### The whole `Select` -/

/-- A united query with its link. -/
def UnitedQuery.linked (u : UnitedQuery) : LinkedQuery where
  link := some u.kind
  query := u.query

/-- The `Select` in one list. -/
def Select.vector (s : Select) : QueryVector where
  chain := ⟨none, s.head⟩ :: s.unions.map UnitedQuery.linked
  cursor := s.cursor
  fault := s.fault

namespace Select

variable {s : Select}

theorem map_query_vector (s : Select) : s.vector.chain.map (·.query) = s.queries := by
  show s.head :: (s.unions.map UnitedQuery.linked).map (·.query) = _
  rw [List.map_map]
  rfl

theorem map_link_vector (s : Select) : s.vector.chain.map (·.link) = s.links := by
  show none :: (s.unions.map UnitedQuery.linked).map (·.link) = _
  rw [List.map_map]
  rfl

theorem length_chain_vector (s : Select) : s.vector.chain.length = s.size := by
  rw [← s.length_queries, ← s.map_query_vector, List.length_map]

/-- The query under the cursor is replaced at its position. -/
theorem vector_replaceCurrent {l : LinkedQuery} (hl : s.vector.chain[s.cursor]? = some l) (q : Query) :
    (s.replaceCurrent q).vector =
      { s.vector with chain := s.vector.chain.set s.cursor { l with query := q } } := by
  obtain ⟨head, unions, cursor, fault⟩ := s
  cases cursor with
  | zero =>
    cases hl
    rfl
  | succ i =>
    have hl : (unions.map UnitedQuery.linked)[i]? = some l := hl
    have hunions : (unions.modify i fun u => { u with query := q }).map UnitedQuery.linked =
        (unions.map UnitedQuery.linked).set i { l with query := q } := by
      -- Any value will do where no query is, for there is one.
      have : Inhabited LinkedQuery := ⟨l⟩
      have hmodify : (unions.modify i fun u => { u with query := q }).map UnitedQuery.linked =
          (unions.map UnitedQuery.linked).modify i fun l => { l with query := q } := by
        refine map_modify ?_ unions i
        intro u
        rfl
      rw [hmodify, List.modify_eq_set, hl, Option.getD_some]
    exact congrArg (fun rest => QueryVector.mk (⟨none, head⟩ :: rest) (i + 1) fault) hunions

theorem vector_unite (s : Select) (k : UnionKind) : (s.unite k).vector = s.vector.link k := by
  have hlength : (s.vector.link k).cursor = s.unions.length + 1 := by
    show (s.vector.chain ++ [LinkedQuery.mk (some k) .empty]).length - 1 = s.size
    rw [List.length_append, length_chain_vector]
    rfl
  have hchain : (s.unite k).vector.chain = (s.vector.link k).chain := by
    show LinkedQuery.mk none s.head ::
      (s.unions ++ [UnitedQuery.mk k .empty]).map UnitedQuery.linked = _
    rw [List.map_append]
    rfl
  show QueryVector.mk (s.unite k).vector.chain (s.unions.length + 1) s.fault = _
  rw [hchain, ← hlength]
  rfl

/-- A step on the `Select` is the step on its list. -/
theorem vector_apply (h : s.cursor < s.size) (step : Step) :
    s.vector.next? step = some (s.apply step).vector := by
  cases step with
  | root => rfl
  | union k => exact congrArg some (s.vector_unite k).symm
  | edit e =>
    obtain ⟨l, hl⟩ : ∃ l, s.vector.chain[s.cursor]? = some l := by
      rw [← length_chain_vector] at h
      exact ⟨_, List.getElem?_eq_getElem h⟩
    have hq : s.current? = some l.query := by
      rw [current?, ← map_query_vector, List.getElem?_map, hl]
      rfl
    show s.vector.edit? e = some (s.apply (.edit e)).vector
    cases he : l.query.edit e with
    | error f =>
      rw [QueryVector.edit?_of_error hl he, apply_edit_of_error hq he]
      rfl
    | ok q =>
      rw [QueryVector.edit?_of_ok hl he, apply_edit_of_ok hq he, vector_replaceCurrent hl]
      rfl

/-- **The list follows the `Select`** through every run. -/
theorem vector_ofSteps (steps : List Step) : QueryVector.ofSteps? steps = some (ofSteps steps).vector := by
  have hrun (s : Select) (h : s.cursor < s.size) :
      s.vector.run? steps = some (s.applyAll steps).vector := by
    induction steps generalizing s with
    | nil => rfl
    | cons step rest ih =>
      rw [QueryVector.run?, vector_apply h step]
      exact ih (s.apply step) (cursor_apply_lt h step)
  exact hrun empty Nat.zero_lt_one

/-- The list of a `Select` is written as the `Select` is. -/
theorem script_vector (s : Select) : s.vector.script = s.script := by
  obtain ⟨head, unions, cursor, fault⟩ := s
  cases fault with
  | some f => rfl
  | none =>
    have hunions : (unions.map UnitedQuery.linked).flatMap LinkedQuery.script =
        unionsScript unions := by
      induction unions with
      | nil => rfl
      | cons u rest ih =>
        obtain ⟨kind, query⟩ := u
        rw [List.map_cons, List.flatMap_cons, ih, unionsScript]
        rfl
    show head.script ++ (unions.map UnitedQuery.linked).flatMap
      LinkedQuery.script = _
    rw [hunions, Select.script]

end Select

/-- Whatever steps are carried out, the list is written as the `Select` of these steps is. -/
theorem QueryVector.script_ofSteps (steps : List Select.Step) :
    (ofSteps? steps).map script = some (Select.ofSteps steps).script := by
  rw [Select.vector_ofSteps, Option.map_some, Select.script_vector]

/-- The queries of a `Select`, with the cursor on one of them, are just the lists in which exactly the first query
    has no link. -/
theorem QueryVector.isLinked_iff {w : QueryVector} :
    w.IsLinked ↔ ∃ s : Select, s.cursor < s.size ∧ s.vector = w := by
  constructor
  · intro h
    obtain ⟨chain, cursor, fault⟩ := w
    cases chain with
    | nil => exact absurd h.cursor (Nat.not_lt_zero _)
    | cons l rest =>
      obtain ⟨link, head⟩ := l
      have hlink : link = none := by
        have hfirst := (h.links 0).mpr rfl
        exact Option.some.inj hfirst
      -- Every query behind the first one has a link, so none is made up here.
      let unions := rest.map fun l => UnitedQuery.mk (l.link.getD .distinct) l.query
      have hunions : unions.map UnitedQuery.linked = rest := by
        refine List.ext_getElem? fun i => ?_
        rw [List.map_map, List.getElem?_map]
        have hlater := h.links (i + 1)
        cases hget : rest[i]? with
        | none => rfl
        | some l =>
          obtain ⟨link', query⟩ := l
          cases link' with
          | some k => rfl
          | none =>
            have hnone : (rest.map (·.link))[i]? = some none := by
              rw [List.getElem?_map, hget]
              rfl
            exact absurd (hlater.mp hnone) (Nat.succ_ne_zero i)
      refine ⟨⟨head, unions, cursor, fault⟩, ?_, ?_⟩
      · show cursor < unions.length + 1
        rw [List.length_map]
        exact h.cursor
      · show QueryVector.mk (⟨none, head⟩ :: unions.map UnitedQuery.linked) cursor fault = _
        rw [hunions, hlink]
  · rintro ⟨s, hcursor, rfl⟩
    refine ⟨?_, ?_⟩
    · rw [s.length_chain_vector]
      exact hcursor
    · rw [s.map_link_vector]
      exact s.links_eq_none_iff

end BoundSql
