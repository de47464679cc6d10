import BoundSql.Proofs.BindingOrder
import BoundSql.Proofs.Leaves
import Mathlib.Data.List.FinRange
import Mathlib.Data.List.Nodup

/-!
# `BoundSql.Proofs.Places` — where in a statement a parameter stands

To say which operand a parameter comes from, the operand needs an address. The parts of a statement are
the nodes of a tree; the address of a node is the list of child numbers on the way to it, and one of its
own parameters is found by its number. Reading the tree in order gives a list of such places which depends
on the shape of the statement only, not on its values.

## Contents
- **`Node`** is a part of a statement, with its own parameters `own` and its parts `children`.
- **`Place`** is an address with a number; `Node.paramAt` looks a parameter up, `Node.places` lists the
  places in reading order.
- **`Node.map_paramAt_places`** finds the parameters of the walk at those places, and
  **`Node.places_mapLeaves`** says that other values stand in the same places.
- **`Node.Contains`** relates a node to everything that stands in it; **`Node.Everywhere`** says that
  something holds of all of that.
-/

namespace BoundSql

/-! ## Nodes -/

/-- A part of a statement. An operand is kept with the operator beside it. -/
inductive Node where
  | statement (s : Statement)
  | select (s : Select)
  | query (q : Query)
  | column (c : Column)
  | source (s : Source)
  | predicate (p : Predicate)
  | term (t : Term)
  | operand (op : Operator) (o : Operand)
  | row (cells : List Cell)
  | cell (c : Cell)

namespace Node

/-- The parameters of the node itself: the elements of an operand's parameter, or that of a cell. -/
def own : Node → List BoundParam
  | operand _ (.bound p) => p.bindings
  | cell (.bound p) => [p]
  | _ => []

/-- The parts of a node in reading order. An assignment counts as an equality. -/
def children : Node → List Node
  | statement (.select s) => [select s]
  | statement (.insert i) => i.batch.rows.map row
  | statement (.update u) => u.assignments.map (fun a => operand .equal a.operand) ++ [predicate u.filter]
  | statement (.delete d) => [predicate d.filter]
  | select s => s.queries.map query
  | query q =>
    q.columns.map column ++ q.source.toList.map source ++ q.joins.map (fun j => source j.target) ++
      predicate q.filter :: q.having.toList.map predicate
  | column (.case c) => c.branches.map fun b => predicate b.guard
  | column (.plain _ _) | column (.aggregate _) => []
  | source (.subquery s) => [select s]
  | source (.table _) => []
  | predicate p => p.terms.map term
  | term (.comparison c) => [operand c.operator c.operand]
  | term (.group p) => [predicate p]
  | operand _ (.subquery s) => [select s]
  | operand _ .null | operand _ (.bound _) | operand _ (.inlined _) | operand _ (.inlinedList _) => []
  | row cells => cells.map cell
  | cell _ => []

/-- The parameters of the walk over a node. -/
def params : Node → List BoundParam
  | statement s => s.params
  | select s => s.params
  | query q => q.params
  | column c => c.params
  | source s => s.params
  | predicate p => p.params
  | term t => t.params
  | operand _ o => o.params
  | row cells => cells.flatMap Cell.params
  | cell c => c.params

/-- The node with other values. -/
def mapLeaves (φ : LeafMap) : Node → Node
  | statement s => statement (s.mapLeaves φ)
  | select s => select (s.mapLeaves φ)
  | query q => query (q.mapLeaves φ)
  | column c => column (c.mapLeaves φ)
  | source s => source (s.mapLeaves φ)
  | predicate p => predicate (p.mapLeaves φ)
  | term t => term (t.mapLeaves φ)
  | operand op o => operand op (o.mapLeaves φ op)
  | row cells => row (cells.map (Cell.mapLeaves φ))
  | cell c => cell (c.mapLeaves φ)

/-! ## A node and its parts -/

theorem sizeOf_lt_of_mem_terms {p : Predicate} {t : Term} (h : t ∈ p.terms) : sizeOf t < sizeOf p := by
  obtain ⟨chain, negated, fault⟩ := p
  cases chain with
  | none => cases h
  | some c =>
    obtain ⟨first, rest⟩ := c
    rw [Predicate.mk.sizeOf_spec, Option.some.sizeOf_spec, Chain.mk.sizeOf_spec]
    rcases List.mem_cons.mp h with rfl | h
    · omega
    · obtain ⟨⟨connective, term⟩, hlink, rfl⟩ := List.mem_map.mp h
      have hrest := List.sizeOf_lt_of_mem hlink
      simp only [Link.mk.sizeOf_spec] at hrest ⊢
      omega

theorem sizeOf_lt_of_mem_queries {s : Select} {q : Query} (h : q ∈ s.queries) :
    sizeOf q < sizeOf s := by
  obtain ⟨head, unions, cursor, fault⟩ := s
  rw [Select.mk.sizeOf_spec]
  rcases List.mem_cons.mp h with rfl | h
  · omega
  · obtain ⟨⟨kind, query⟩, hunion, rfl⟩ := List.mem_map.mp h
    have hrest := List.sizeOf_lt_of_mem hunion
    simp only [UnitedQuery.mk.sizeOf_spec] at hrest ⊢
    omega

theorem sizeOf_lt_of_mem_query {q : Query} {m : Node} (h : m ∈ (query q).children) :
    sizeOf m < sizeOf (query q) := by
  obtain ⟨columns, distinct, source, sourceLabel, joins, filter, groupBy, having, orderBy, limit,
    offset⟩ := q
  simp only [children, List.mem_append, List.mem_cons, List.mem_map, Option.mem_toList] at h
  rw [query.sizeOf_spec, Query.mk.sizeOf_spec]
  rcases h with ((⟨c, hc, rfl⟩ | ⟨s, rfl, rfl⟩) | ⟨⟨kind, target, label, condition⟩, hj, rfl⟩) |
    rfl | ⟨p, rfl, rfl⟩
  · have hcolumn := List.sizeOf_lt_of_mem hc
    rw [column.sizeOf_spec]
    omega
  · rw [Node.source.sizeOf_spec, Option.some.sizeOf_spec]
    omega
  · have hjoin := List.sizeOf_lt_of_mem hj
    simp only [Join.mk.sizeOf_spec, Node.source.sizeOf_spec] at hjoin ⊢
    omega
  · rw [predicate.sizeOf_spec]
    omega
  · rw [predicate.sizeOf_spec, Option.some.sizeOf_spec]
    omega

theorem sizeOf_lt_of_mem_statement {s : Statement} {m : Node} (h : m ∈ (statement s).children) :
    sizeOf m < sizeOf (statement s) := by
  cases s with
  | select s =>
    obtain rfl := List.mem_singleton.mp h
    simp
  | insert i =>
    obtain ⟨table, ⟨columns, rows⟩, fault⟩ := i
    obtain ⟨cells, hcells, rfl⟩ := List.mem_map.mp h
    have hrow : sizeOf cells < sizeOf rows := List.sizeOf_lt_of_mem hcells
    simp only [statement.sizeOf_spec, Statement.insert.sizeOf_spec, Insert.mk.sizeOf_spec,
      Batch.mk.sizeOf_spec, row.sizeOf_spec]
    omega
  | update u =>
    obtain ⟨table, assignments, filter⟩ := u
    simp only [statement.sizeOf_spec, Statement.update.sizeOf_spec, Update.mk.sizeOf_spec]
    rcases List.mem_append.mp h with h | h
    · obtain ⟨⟨name, operand⟩, ha, rfl⟩ := List.mem_map.mp h
      have hassignment := List.sizeOf_lt_of_mem ha
      simp only [Assignment.mk.sizeOf_spec, Node.operand.sizeOf_spec, Operator.equal.sizeOf_spec]
        at hassignment ⊢
      omega
    · obtain rfl := List.mem_singleton.mp h
      simp only [predicate.sizeOf_spec]
      omega
  | delete d =>
    obtain ⟨table, filter⟩ := d
    obtain rfl := List.mem_singleton.mp h
    simp only [statement.sizeOf_spec, Statement.delete.sizeOf_spec, Delete.mk.sizeOf_spec,
      predicate.sizeOf_spec]
    omega

/-- A part is smaller than the whole. -/
theorem sizeOf_lt_of_mem_children {n m : Node} (h : m ∈ n.children) : sizeOf m < sizeOf n := by
  cases n with
  | statement s => exact sizeOf_lt_of_mem_statement h
  | select s =>
    obtain ⟨q, hq, rfl⟩ := List.mem_map.mp h
    have hlt := sizeOf_lt_of_mem_queries hq
    rw [query.sizeOf_spec, select.sizeOf_spec]
    omega
  | query q => exact sizeOf_lt_of_mem_query h
  | column c =>
    cases c with
    | plain name label | aggregate a => cases h
    | case c =>
      obtain ⟨branches, otherwise, label, fault⟩ := c
      obtain ⟨⟨guard, result⟩, hb, rfl⟩ := List.mem_map.mp h
      have hbranch := List.sizeOf_lt_of_mem hb
      simp only [Branch.mk.sizeOf_spec, predicate.sizeOf_spec, column.sizeOf_spec, Column.case.sizeOf_spec,
        CaseColumn.mk.sizeOf_spec] at hbranch ⊢
      omega
  | source s =>
    cases s with
    | table name => cases h
    | subquery s =>
      obtain rfl := List.mem_singleton.mp h
      simp
  | predicate p =>
    obtain ⟨t, ht, rfl⟩ := List.mem_map.mp h
    have hlt := sizeOf_lt_of_mem_terms ht
    rw [term.sizeOf_spec, predicate.sizeOf_spec]
    omega
  | term t =>
    cases t with
    | comparison c =>
      obtain ⟨field, operator, operand, negated⟩ := c
      obtain rfl := List.mem_singleton.mp h
      simp only [Node.operand.sizeOf_spec, term.sizeOf_spec, Term.comparison.sizeOf_spec,
        Comparison.mk.sizeOf_spec]
      omega
    | group p =>
      obtain rfl := List.mem_singleton.mp h
      simp
  | operand op o =>
    cases o with
    | null | bound p | inlined v | inlinedList vs => cases h
    | subquery s =>
      obtain rfl := List.mem_singleton.mp h
      rw [select.sizeOf_spec, operand.sizeOf_spec, Operand.subquery.sizeOf_spec]
      omega
  | row cells =>
    obtain ⟨c, hc, rfl⟩ := List.mem_map.mp h
    have hcell := List.sizeOf_lt_of_mem hc
    rw [cell.sizeOf_spec, row.sizeOf_spec]
    omega
  | cell c => cases h

/-- The walk over a query goes through its clauses. -/
theorem params_query (q : Query) : (query q).params = (query q).children.flatMap params := by
  have hsource (s : Option Source) : sourceParams s = (s.toList.map source).flatMap params := by
    cases s with
    | none => rfl
    | some s => exact (List.append_nil s.params).symm
  have hhaving (p : Option Predicate) :
      havingParams p = (p.toList.map predicate).flatMap params := by
    cases p with
    | none => rfl
    | some p => exact (List.append_nil p.params).symm
  obtain ⟨columns, distinct, source, sourceLabel, joins, filter, groupBy, having, orderBy, limit,
    offset⟩ := q
  have hcolumns : columnsParams columns = (columns.map column).flatMap params :=
    (columnsParams_eq_flatMap columns).trans (List.flatMap_map column params _).symm
  have hjoins : joinsParams joins = (joins.map fun j => Node.source j.target).flatMap params :=
    (joinsParams_eq_flatMap joins).trans
      (List.flatMap_map (fun j : Join => Node.source j.target) params _).symm
  simp only [params, Query.params, children, List.flatMap_append, List.flatMap_cons, ← hcolumns,
    ← hsource, ← hjoins, ← hhaving, List.append_assoc]

/-- The walk over a node goes through its own parameters, then through its parts. -/
theorem params_eq (n : Node) : n.params = n.own ++ n.children.flatMap params := by
  cases n with
  | statement s =>
    cases s with
    | select s => exact (List.append_nil s.params).symm
    | insert i => exact (List.flatMap_map row params _).symm
    | update u =>
      have hassignments : u.assignments.flatMap Assignment.params =
          (u.assignments.map fun a => operand .equal a.operand).flatMap params := by
        rw [List.flatMap_map]
        rfl
      simp only [params, Statement.params, own, children, hassignments, List.flatMap_append,
        List.flatMap_cons, List.flatMap_nil, List.append_nil, List.nil_append]
    | delete d => exact (List.append_nil d.filter.params).symm
  | select s => exact s.params_eq_flatMap.trans (List.flatMap_map query params _).symm
  | query q => exact params_query q
  | column c =>
    cases c with
    | plain name label | aggregate a => rfl
    | case c =>
      rw [params, Column.params, c.params_eq_flatMap, own, children, List.nil_append, List.flatMap_map]
      · rfl
      · simp
      · simp
  | source s =>
    cases s with
    | table name => rfl
    | subquery s =>
      rw [params, Source.params]
      exact (List.append_nil s.params).symm
  | predicate p => exact p.params_eq_flatMap.trans (List.flatMap_map term params _).symm
  | term t =>
    cases t with
    | comparison c =>
      obtain ⟨field, operator, operand, negated⟩ := c
      rw [params, Term.params, Comparison.params]
      exact (List.append_nil operand.params).symm
    | group p =>
      rw [params, Term.params]
      exact (List.append_nil p.params).symm
  | operand op o =>
    cases o with
    | null | inlined v | inlinedList vs => rfl
    | bound p =>
      rw [params, Operand.params]
      exact (List.append_nil p.bindings).symm
    | subquery s =>
      rw [params, Operand.params]
      exact (List.append_nil s.params).symm
  | row cells => exact (List.flatMap_map cell params _).symm
  | cell c => cases c <;> rfl

/-! ## Places -/

/-- The node at an address: the numbers of the children on the way to it. -/
def at? : List Nat → Node → Option Node
  | [], n => some n
  | i :: address, n => n.children[i]?.bind (at? address)

end Node

/-- Where a parameter stands: the address of a node, and the number of the parameter among its own. -/
structure Place where
  address : List Nat
  element : Nat
  deriving DecidableEq

/-- The place seen from the parent of a node, of which the node is child `i`. -/
def Place.below (i : Nat) (x : Place) : Place :=
  { x with address := i :: x.address }

namespace Node

/-- The parameter in a place. -/
def paramAt (n : Node) (x : Place) : Option BoundParam :=
  (at? x.address n).bind fun m => m.own[x.element]?

/-- Every place of a parameter, in reading order. -/
def places (n : Node) : List Place :=
  (List.range n.own.length).map (⟨[], ·⟩) ++
    n.children.zipIdx.attach.flatMap fun c => c.1.1.places.map (Place.below c.1.2)
termination_by sizeOf n
decreasing_by exact sizeOf_lt_of_mem_children (List.fst_mem_of_mem_zipIdx c.2)

/-- The places in a node are its own, and those in its children. -/
theorem places_eq (n : Node) :
    n.places = (List.range n.own.length).map (⟨[], ·⟩) ++
      n.children.zipIdx.flatMap fun c => c.1.places.map (Place.below c.2) := by
  rw [places]
  conv_rhs => rw [← List.attach_map_subtype_val n.children.zipIdx, List.flatMap_map]

theorem paramAt_below {n m : Node} {i : Nat} (h : n.children[i]? = some m) (x : Place) :
    n.paramAt (x.below i) = m.paramAt x := by
  rw [paramAt, Place.below, at?, h]
  rfl

/-- The parameters of the walk stand in the places, in the same order. -/
theorem map_paramAt_places (n : Node) : n.places.map n.paramAt = n.params.map some := by
  have hown : ((List.range n.own.length).map (⟨[], ·⟩)).map n.paramAt = n.own.map some := by
    rw [List.map_map]
    refine List.ext_getElem (by simp) fun i hi _ => ?_
    have hlt : i < n.own.length := by simpa using hi
    simp [paramAt, at?, List.getElem?_eq_getElem hlt]
  have hchild (c : Node × Nat) (hc : c ∈ n.children.zipIdx) :
      (c.1.places.map (Place.below c.2)).map n.paramAt = c.1.params.map some := by
    have hget : n.children[c.2]? = some c.1 := List.mem_zipIdx_iff_getElem?.mp hc
    rw [List.map_map, ← map_paramAt_places c.1]
    exact List.map_congr_left fun x _ => paramAt_below hget x
  have hchildren : (n.children.zipIdx.flatMap fun c => (c.1.places.map (Place.below c.2)).map n.paramAt) =
      n.children.flatMap fun m => m.params.map some := by
    rw [List.flatMap_congr hchild, ← List.flatMap_map Prod.fst (fun m : Node => m.params.map some),
      List.zipIdx_map_fst]
  rw [places_eq, params_eq, List.map_append, List.map_append, hown, List.map_flatMap, List.map_flatMap,
    hchildren]
termination_by sizeOf n
decreasing_by exact sizeOf_lt_of_mem_children (List.fst_mem_of_mem_zipIdx hc)

/-- No place is listed twice. -/
theorem nodup_places (n : Node) : n.places.Nodup := by
  have hown : ((List.range n.own.length).map (⟨[], ·⟩ : Nat → Place)).Nodup :=
    List.nodup_range.map fun i j h => congrArg Place.element h
  have hbelow (i : Nat) : Function.Injective (Place.below i) := by
    rintro ⟨address, element⟩ ⟨address', element'⟩ h
    simpa [Place.below] using h
  have hchildren : (n.children.zipIdx.flatMap fun c => c.1.places.map (Place.below c.2)).Nodup := by
    refine List.nodup_flatMap.mpr ⟨fun c hc => (nodup_places c.1).map (hbelow c.2), ?_⟩
    have hnumbers : (n.children.zipIdx.map Prod.snd).Nodup := by
      rw [List.zipIdx_map_snd]
      exact List.nodup_range'
    -- Places below different children differ in the first number of their addresses.
    refine (List.pairwise_map.mp hnumbers).imp fun {c d} hne x hx hx' => ?_
    obtain ⟨y, -, rfl⟩ := List.mem_map.mp hx
    obtain ⟨z, -, hz⟩ := List.mem_map.mp hx'
    exact hne (List.cons.inj (congrArg Place.address hz)).1.symm
  rw [places_eq]
  refine hown.append hchildren fun x hx hx' => ?_
  obtain ⟨i, -, rfl⟩ := List.mem_map.mp hx
  obtain ⟨c, -, hc⟩ := List.mem_flatMap.mp hx'
  obtain ⟨y, -, hy⟩ := List.mem_map.mp hc
  exact List.cons_ne_nil _ _ (congrArg Place.address hy)
termination_by sizeOf n
decreasing_by exact sizeOf_lt_of_mem_children (List.fst_mem_of_mem_zipIdx hc)

/-! ## Other values -/

variable {φ : LeafMap}

theorem terms_mapLeaves (p : Predicate) :
    (p.mapLeaves φ).terms = p.terms.map (Term.mapLeaves φ) := by
  obtain ⟨chain, negated, fault⟩ := p
  cases chain with
  | none => rfl
  | some c =>
    obtain ⟨first, rest⟩ := c
    have hlinks : (mapLinks φ rest).map (·.term) = (rest.map (·.term)).map (Term.mapLeaves φ) := by
      rw [mapLinks_eq_map, List.map_map, List.map_map]
      rfl
    rw [Predicate.mapLeaves, mapChain, Chain.mapLeaves]
    exact congrArg (first.mapLeaves φ :: ·) hlinks

theorem queries_mapLeaves (s : Select) :
    (s.mapLeaves φ).queries = s.queries.map (Query.mapLeaves φ) := by
  obtain ⟨head, unions, cursor, fault⟩ := s
  have hunions : (mapUnions φ unions).map (·.query) =
      (unions.map (·.query)).map (Query.mapLeaves φ) := by
    rw [mapUnions_eq_map, List.map_map, List.map_map]
    rfl
  rw [Select.mapLeaves]
  exact congrArg (head.mapLeaves φ :: ·) hunions

theorem children_mapLeaves_query (q : Query) :
    ((query q).mapLeaves φ).children = (query q).children.map (mapLeaves φ) := by
  have hcolumns (columns : List Column) :
      (mapColumns φ columns).map column = (columns.map column).map (mapLeaves φ) := by
    rw [mapColumns_eq_map, List.map_map, List.map_map]
    rfl
  have hjoins (joins : List Join) : (mapJoins φ joins).map (fun j => source j.target) =
      (joins.map fun j => source j.target).map (mapLeaves φ) := by
    rw [mapJoins_eq_map, List.map_map, List.map_map]
    refine List.map_congr_left fun j _ => ?_
    obtain ⟨kind, target, label, condition⟩ := j
    rfl
  obtain ⟨columns, distinct, source, sourceLabel, joins, filter, groupBy, having, orderBy, limit,
    offset⟩ := q
  simp only [mapLeaves, Query.mapLeaves, children, List.map_append, List.map_cons, hcolumns, hjoins]
  cases source <;> cases having <;> rfl

/-- A leaf map changes the parts of a node one by one. -/
theorem children_mapLeaves (n : Node) :
    (n.mapLeaves φ).children = n.children.map (mapLeaves φ) := by
  cases n with
  | statement s =>
    cases s with
    | select s => rfl
    | insert i =>
      simp only [mapLeaves, Statement.mapLeaves, Batch.mapLeaves, children, List.map_map]
      rfl
    | update u =>
      simp only [mapLeaves, Statement.mapLeaves, children, List.map_append, List.map_map]
      rfl
    | delete d => rfl
  | select s =>
    simp only [mapLeaves, children, queries_mapLeaves, List.map_map]
    rfl
  | query q => exact children_mapLeaves_query q
  | column c =>
    cases c with
    | plain name label | aggregate a => rfl
    | case c =>
      obtain ⟨branches, otherwise, label, fault⟩ := c
      simp only [mapLeaves, Column.mapLeaves, CaseColumn.mapLeaves, children, mapBranches_eq_map,
        List.map_map]
      rfl
  | source s =>
    cases s with
    | table name => rfl
    | subquery s => rfl
  | predicate p =>
    simp only [mapLeaves, children, terms_mapLeaves, List.map_map]
    rfl
  | term t =>
    cases t with
    | comparison c =>
      obtain ⟨field, operator, operand, negated⟩ := c
      rfl
    | group p => rfl
  | operand op o => cases o <;> rfl
  | row cells =>
    simp only [mapLeaves, children, List.map_map]
    rfl
  | cell c => cases c <;> rfl

/-- A leaf map that keeps the size of every parameter leaves each parameter in its place. -/
theorem places_mapLeaves (hφ : ∀ op p, (φ.bound op p).size = p.size) (n : Node) :
    (n.mapLeaves φ).places = n.places := by
  have hown : (n.mapLeaves φ).own.length = n.own.length := by
    cases n with
    | operand op o =>
      cases o with
      | bound p => exact (Param.length_bindings _).trans ((hφ op p).trans (Param.length_bindings p).symm)
      | null | inlined v | inlinedList vs | subquery s => rfl
    | cell c => cases c <;> rfl
    | statement s | select s | query q | column c | source s | predicate p | term t | row cells => rfl
  have hchild (c : Node × Nat) (hc : c ∈ n.children.zipIdx) :
      (c.1.mapLeaves φ).places.map (Place.below c.2) = c.1.places.map (Place.below c.2) :=
    congrArg (List.map (Place.below c.2)) (places_mapLeaves hφ c.1)
  rw [places_eq, places_eq, hown, children_mapLeaves, List.zipIdx_map, List.flatMap_map]
  exact congrArg (_ ++ ·) (List.flatMap_congr hchild)
termination_by sizeOf n
decreasing_by exact sizeOf_lt_of_mem_children (List.fst_mem_of_mem_zipIdx hc)

/-! ## Parts of parts -/

variable {P : Node → Prop} {n m : Node}

/-- A node stands in another one at any depth, or is that node. -/
inductive Contains : Node → Node → Prop where
  | self {n : Node} : Contains n n
  | part {n c m : Node} (hc : c ∈ n.children) (h : Contains c m) : Contains n m

/-- Something holds of a node and of everything that stands in it. -/
def Everywhere (P : Node → Prop) (n : Node) : Prop :=
  ∀ m, n.Contains m → P m

theorem Contains.trans {k : Node} (h : n.Contains m) (h' : m.Contains k) : n.Contains k := by
  induction h with
  | self => exact h'
  | part hc _ ih => exact .part hc (ih h')

theorem everywhere_iff : n.Everywhere P ↔ P n ∧ ∀ c ∈ n.children, c.Everywhere P := by
  constructor
  · intro h
    exact ⟨h n .self, fun c hc m hm => h m (.part hc hm)⟩
  · rintro ⟨hn, hparts⟩ m hm
    cases hm with
    | self => exact hn
    | part hc hm => exact hparts _ hc m hm

theorem everywhere_predicate {p : Predicate} :
    (predicate p).Everywhere P ↔ P (predicate p) ∧ ∀ t ∈ p.terms, (term t).Everywhere P := by
  rw [everywhere_iff, children, List.forall_mem_map]

theorem everywhere_case {c : CaseColumn} :
    (column (.case c)).Everywhere P ↔
      P (column (.case c)) ∧ ∀ g ∈ c.branches.map (·.guard), (predicate g).Everywhere P := by
  rw [everywhere_iff, children, List.forall_mem_map, List.forall_mem_map]

theorem everywhere_select {s : Select} :
    (select s).Everywhere P ↔ P (select s) ∧ ∀ q ∈ s.queries, (query q).Everywhere P := by
  rw [everywhere_iff, children, List.forall_mem_map]

/-- The parts of a query, clause by clause. -/
theorem everywhere_query {q : Query} :
    (query q).Everywhere P ↔
      P (query q) ∧ (∀ c ∈ q.columns, (column c).Everywhere P) ∧
        (∀ s ∈ q.source, (source s).Everywhere P) ∧ (∀ j ∈ q.joins, (source j.target).Everywhere P) ∧
          (predicate q.filter).Everywhere P ∧ ∀ p ∈ q.having, (predicate p).Everywhere P := by
  rw [everywhere_iff, children]
  simp only [List.forall_mem_append, List.forall_mem_cons, List.forall_mem_map, Option.mem_toList,
    Option.mem_def, and_assoc]

end Node

end BoundSql
