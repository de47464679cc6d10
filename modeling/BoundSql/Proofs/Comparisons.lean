import BoundSql.Proofs.Acceptance
import BoundSql.Proofs.BindingOrder

/-!
# `BoundSql.Proofs.Comparisons` — the decision table of comparisons

Which operand an operator takes, what is then written and what is bound is decided in several places of the
renderer, case by case and in an order that matters. Here all of it stands in one table with a row for each
operand that is taken. A comparison is rendered if a row fits it, and is then written as the row says.

## Contents
- **`Value.written`** is the literal of a value as text.
- **`Operator.Takes`** is the table, **`Comparison.textWith`** puts a row into its sentence, and
  **`Operator.refusal`** is the kind of the fault if no row fits.
- **`Script.Writes`** says what a script without faults comes to; **`Operator.Takes.writes`** shows it of the
  rows.
- **`Comparison.renderAfter_decides`** is the law of all comparisons.
-/

namespace BoundSql

open Script

/-! ## The table -/

/-- The literal of a value. -/
def Value.written : Value → String
  | .null => "NULL"
  | .bool b => if b then "1" else "0"
  | .int i => i.repr
  | .float x => literalStyle.write x
  | .text s => Literal.quote s

/-- An operator takes an operand. The text is what is written behind the field, and the parameters are those
    that are bound. -/
inductive Operator.Takes : Operator → Operand → String → List BoundParam → Prop where
  | isNull : Takes .equal .null "IS NULL" []
  | isNotNull : Takes .unequal .null "IS NOT NULL" []
  | scalar {op : Operator} (hop : op.takesOneValue = true) (v : Value) (t : ParamType) :
      Takes op (.bound ⟨.scalar v, t⟩) (op.text ++ " ?") [⟨v, t⟩]
  | range {a b : Value} (ha : a.isNumeric = true) (hb : b.isNumeric = true) (t : ParamType) :
      Takes .between (.bound ⟨.list [a, b], t⟩) "BETWEEN ? AND ?" [⟨a, t⟩, ⟨b, t⟩]
  | oneOf {vs : List Value} (hvs : vs ≠ []) (t : ParamType) :
      Takes .oneOf (.bound ⟨.list vs, t⟩) ("IN (" ++ ", ".intercalate (vs.map fun _ => "?") ++ ")")
        (vs.map (⟨·, t⟩))
  | subquery {s : Select} {p : Prepared} (hp : (Statement.select s).prepare = .ok p) :
      Takes .oneOf (.subquery s) ("IN (" ++ p.sql ++ ")") p.params
  | literal {op : Operator} (hop : op.takesOneValue = true) {v : Value} (hv : v.isComparable = true) :
      Takes op (.inlined v) (op.text ++ " " ++ v.written) []
  | literalRange {a b : Value} (ha : a.isComparable = true) (hb : b.isComparable = true) :
      Takes .between (.inlinedList [a, b]) ("BETWEEN " ++ a.written ++ " AND " ++ b.written) []
  | literals {vs : List Value} (hvs : vs ≠ []) (hall : ∀ v ∈ vs, v.isComparable = true) :
      Takes .oneOf (.inlinedList vs) ("IN (" ++ ", ".intercalate (vs.map Value.written) ++ ")") []

/-- A comparison with what is written behind its field. NOT stands between the two for LIKE, BETWEEN and IN,
    and in front of the field for all other operators. -/
def Comparison.textWith (c : Comparison) (phrase : String) : String :=
  if c.negated then
    match c.operator with
    | .like | .between | .oneOf => c.field ++ " NOT " ++ phrase
    | _ => "NOT " ++ c.field ++ " " ++ phrase
  else c.field ++ " " ++ phrase

/-- The kind of the fault for an operand that an operator does not take. -/
def Operator.refusal (op : Operator) : Operand → FaultKind
  | .null | .subquery _ => .operator
  | .bound _ | .inlinedList _ => if op.takesOneValue then .operator else .shape
  | .inlined _ => .shape

/-- Whether an operand is written out, so that it needs no parameters. -/
def Operand.isWrittenOut : Operand → Bool
  | .null | .inlined _ | .inlinedList _ => true
  | .bound _ | .subquery _ => false

/-! ## Scripts without faults -/

/-- A script has no fault, and comes to a text and to parameters. -/
def Script.Writes (s : Script) (sql : String) (ps : List BoundParam) : Prop :=
  fault? s = none ∧ text s = sql ∧ bindings s = ps

namespace Script.Writes

variable {s t : Script} {sql sql' : String} {ps qs : List BoundParam}

theorem nil : Writes [] "" [] :=
  ⟨rfl, rfl, rfl⟩

theorem text {f : Fragment} (h : Writes s sql ps) : Writes (.text f :: s) (f.text ++ sql) ps :=
  ⟨h.1, congrArg (f.text ++ ·) h.2.1, h.2.2⟩

theorem placeholder {p : BoundParam} (h : Writes s sql ps) :
    Writes (.placeholder p :: s) ("?" ++ sql) (p :: ps) :=
  ⟨h.1, congrArg ("?" ++ ·) h.2.1, congrArg (p :: ·) h.2.2⟩

theorem append (hs : Writes s sql ps) (ht : Writes t sql' qs) : Writes (s ++ t) (sql ++ sql') (ps ++ qs) := by
  obtain ⟨hfault, rfl, rfl⟩ := hs
  obtain ⟨hfault', rfl, rfl⟩ := ht
  exact ⟨fault?_append_eq_none.mpr ⟨hfault, hfault'⟩, text_append s t,
    bindings_append_of_fault?_eq_none hfault t⟩

theorem inParens (h : Writes s sql ps) : Writes s.inParens ("(" ++ sql ++ ")") ps := by
  obtain ⟨hfault, rfl, rfl⟩ := h
  exact ⟨(fault?_inParens s).trans hfault, text_inParens s, bindings_inParens s⟩

/-- Scripts between commas have their texts between commas, and bind in order. -/
theorem commaList_map {β : Type} {script : β → Script} {written : β → String}
    {bound : β → List BoundParam} {items : List β}
    (h : ∀ b ∈ items, Writes (script b) (written b) (bound b)) :
    Writes (commaList (items.map script)) (", ".intercalate (items.map written)) (items.flatMap bound) := by
  induction items with
  | nil => exact nil
  | cons b rest ih =>
    obtain ⟨hb, hrest⟩ := List.forall_mem_cons.mp h
    have htail := ih hrest
    cases rest with
    | nil =>
      rw [List.map_cons, List.map_nil, List.map_cons, List.map_nil, String.intercalate_singleton,
        List.flatMap_cons, List.flatMap_nil, List.append_nil]
      exact hb
    | cons c rest =>
      have hall := hb.append (htail.text (f := .keyword ", "))
      rw [List.map_cons (f := written), List.map_cons (f := written), String.intercalate_cons_cons,
        String.append_assoc]
      exact hall

theorem renderAfter (h : Writes s sql ps) (earlier : List BoundParam) :
    s.renderAfter earlier = ⟨.ok sql, earlier ++ ps⟩ := by
  obtain ⟨hfault, htext, rfl⟩ := h
  rw [renderAfter_eq, render_eq_ok_iff.mpr ⟨hfault, htext⟩]

end Script.Writes

/-! ## Sentences -/

/-- Where NOT stands is what the operator says. -/
theorem Comparison.textWith_eq (c : Comparison) (phrase : String) :
    c.textWith phrase =
      if c.operator.negatesInside then c.field ++ (if c.negated then " NOT " else " ") ++ phrase
      else (if c.negated then "NOT " else "") ++ c.field ++ " " ++ phrase := by
  obtain ⟨field, op, operand, negated⟩ := c
  cases negated with
  | true => cases op <;> rfl
  | false => cases op <;> simp [textWith]

theorem text_sentence (c : Comparison) (right : Script) :
    text (sentence c.field c.operator c.negated right) =
      c.textWith (c.operator.text ++ " " ++ text right) := by
  rw [Comparison.textWith_eq]
  unfold sentence notBefore
  split
  · simp [text, Piece.written, Fragment.text, String.append_assoc]
  · split <;> simp [text, Piece.written, Fragment.text, String.append_assoc]

/-! ## Rows of the table -/

/-- A value beside an operator is its literal. -/
theorem Value.writes_comparand {v : Value} (hv : v.isComparable = true) (op : Operator) :
    Writes [.ofExcept (v.comparand op)] v.written [] := by
  cases v with
  | null => cases hv
  | bool b => cases hv
  | int i => exact ⟨rfl, String.append_empty, rfl⟩
  | text s => exact ⟨rfl, String.append_empty, rfl⟩
  | float x =>
    have hfinite : x.isFinite = true := hv
    rw [Value.comparand, Value.literal, if_pos hfinite, if_pos hfinite]
    exact ⟨rfl, String.append_empty, rfl⟩

/-- A comparison with something else than NULL is a sentence. -/
theorem Comparison.script_eq {c : Comparison} (h : c.operand.isNull = false) :
    c.script = sentence c.field c.operator c.negated (c.operand.comparand c.operator) := by
  obtain ⟨field, op, operand, negated⟩ := c
  rw [Comparison.script]
  rintro rfl
  cases h

/-- A right side behind an operator and a field. -/
theorem Comparison.writes_script {c : Comparison} {sql : String} {ps : List BoundParam}
    (hnull : c.operand.isNull = false) (h : Writes (c.operand.comparand c.operator) sql ps) :
    Writes c.script (c.textWith (c.operator.text ++ " " ++ sql)) ps := by
  obtain ⟨hfault, rfl, rfl⟩ := h
  rw [script_eq hnull]
  exact ⟨(fault?_sentence ..).trans hfault, text_sentence c _, bindings_sentence ..⟩

/-- A test for NULL, which is negated in front of the field. -/
theorem Comparison.writes_notBefore {c : Comparison} (hop : c.operator.negatesInside = false)
    (test : String) :
    Writes (notBefore c.negated [.verbatim c.field, .keyword (" " ++ test)]) (c.textWith test) [] := by
  rw [textWith_eq, hop]
  obtain ⟨field, op, operand, negated⟩ := c
  cases negated <;>
    exact ⟨rfl, by simp [notBefore, text, Piece.written, Fragment.text, String.append_assoc], rfl⟩

/-- One value is a placeholder where the operator takes one value. -/
theorem Param.writes_scalar {op : Operator} (hop : op.takesOneValue = true) (v : Value) (t : ParamType) :
    Writes (comparand op ⟨.scalar v, t⟩) "?" [⟨v, t⟩] := by
  cases op with
  | between => cases hop
  | oneOf => cases hop
  | equal | less | greater | atMost | atLeast | unequal | like => exact .placeholder .nil

theorem Param.writes_range {a b : Value} (ha : a.isNumeric = true) (hb : b.isNumeric = true) (t : ParamType) :
    Writes (comparand .between ⟨.list [a, b], t⟩) "? AND ?" [⟨a, t⟩, ⟨b, t⟩] := by
  have hboth : (a.isNumeric && b.isNumeric) = true := by rw [ha, hb, Bool.and_self]
  show Writes (if a.isNumeric && b.isNumeric then _ else _) _ _
  rw [if_pos hboth]
  exact .placeholder (.text (.placeholder .nil))

theorem Param.writes_oneOf {vs : List Value} (hvs : vs ≠ []) (t : ParamType) :
    Writes (comparand .oneOf ⟨.list vs, t⟩) ("(" ++ ", ".intercalate (vs.map fun _ => "?") ++ ")")
      (vs.map (⟨·, t⟩)) := by
  have hlist : Writes (commaList (vs.map fun v => [.placeholder ⟨v, t⟩]))
      (", ".intercalate (vs.map fun _ => "?")) (vs.flatMap fun v => [⟨v, t⟩]) :=
    .commaList_map fun v _ => .placeholder .nil
  rw [← List.map_eq_flatMap] at hlist
  cases vs with
  | nil => exact absurd rfl hvs
  | cons v rest => exact hlist.inParens

theorem Value.writes_comparandOf {op : Operator} (hop : op.takesOneValue = true) {v : Value}
    (hv : v.isComparable = true) : Writes (v.comparandOf op) v.written [] := by
  cases op with
  | between => cases hop
  | oneOf => cases hop
  | equal | less | greater | atMost | atLeast | unequal | like => exact writes_comparand hv _

theorem writes_listComparand_between {a b : Value} (ha : a.isComparable = true) (hb : b.isComparable = true) :
    Writes (listComparand .between [a, b]) (a.written ++ " AND " ++ b.written) [] := by
  have htail := (Value.writes_comparand hb .between).text (f := .keyword " AND ")
  have hall := (Value.writes_comparand ha .between).append htail
  rw [String.append_assoc]
  exact hall

theorem writes_listComparand_oneOf {vs : List Value} (hvs : vs ≠ [])
    (hall : ∀ v ∈ vs, v.isComparable = true) :
    Writes (listComparand .oneOf vs) ("(" ++ ", ".intercalate (vs.map Value.written) ++ ")") [] := by
  have hlist : Writes (commaList (vs.map fun v => [.ofExcept (v.comparand .oneOf)]))
      (", ".intercalate (vs.map Value.written)) (vs.flatMap fun _ => []) :=
    .commaList_map fun v hv => Value.writes_comparand (hall v hv) .oneOf
  rw [List.flatMap_eq_nil_iff.mpr fun _ _ => rfl] at hlist
  cases vs with
  | nil => exact absurd rfl hvs
  | cons v rest => exact hlist.inParens

/-- What a row says is what is rendered. -/
theorem Operator.Takes.writes {c : Comparison} {phrase : String} {bound : List BoundParam}
    (h : c.operator.Takes c.operand phrase bound) : c.script.Writes (c.textWith phrase) bound := by
  obtain ⟨field, op, operand, negated⟩ := c
  -- Behind IN stands a space, and then what is in parentheses.
  have hin (sql : String) : "IN (" ++ sql ++ ")" = Operator.oneOf.text ++ " " ++ ("(" ++ sql ++ ")") := by
    rw [← String.append_assoc, ← String.append_assoc]
    rfl
  cases h with
  | isNull => exact Comparison.writes_notBefore (c := ⟨field, .equal, .null, negated⟩) rfl "IS NULL"
  | isNotNull =>
    exact Comparison.writes_notBefore (c := ⟨field, .unequal, .null, negated⟩) rfl "IS NOT NULL"
  | scalar hop v t =>
    have h := Comparison.writes_script (c := ⟨field, op, .bound ⟨.scalar v, t⟩, negated⟩) rfl
      (Param.writes_scalar hop v t)
    rwa [String.append_assoc] at h
  | @range a b ha hb t =>
    exact Comparison.writes_script (c := ⟨field, .between, .bound ⟨.list [a, b], t⟩, negated⟩) rfl
      (Param.writes_range ha hb t)
  | oneOf hvs t =>
    rw [hin]
    exact Comparison.writes_script (c := ⟨field, .oneOf, _, negated⟩) rfl (Param.writes_oneOf hvs t)
  | subquery hp =>
    obtain ⟨hfault, rfl⟩ := Statement.prepare_eq_ok_iff.mp hp
    have hquery : Writes _ _ _ := ⟨hfault, rfl, rfl⟩
    rw [hin]
    exact Comparison.writes_script (c := ⟨field, .oneOf, _, negated⟩) rfl hquery.inParens
  | literal hop hv =>
    exact Comparison.writes_script (c := ⟨field, op, _, negated⟩) rfl (Value.writes_comparandOf hop hv)
  | @literalRange a b ha hb =>
    have h := Comparison.writes_script (c := ⟨field, .between, .inlinedList [a, b], negated⟩) rfl
      (writes_listComparand_between ha hb)
    rwa [← String.append_assoc, ← String.append_assoc] at h
  | literals hvs hall =>
    rw [hin]
    exact Comparison.writes_script (c := ⟨field, .oneOf, _, negated⟩) rfl
      (writes_listComparand_oneOf hvs hall)

/-! ## Placeholders of a row -/

/-- As many question marks between commas as there are values. -/
theorem count_placeholders (vs : List Value) :
    (", ".intercalate (vs.map fun _ => "?")).toList.count '?' = vs.length := by
  induction vs with
  | nil => rfl
  | cons v rest ih =>
    cases rest with
    | nil =>
      rw [List.map_cons, List.map_nil, String.intercalate_singleton]
      rfl
    | cons w rest =>
      have hmark : ("?" ++ ", ").toList.count '?' = 1 := by decide
      rw [List.map_cons, List.map_cons, String.intercalate_cons_cons, String.toList_append, List.count_append,
        hmark, List.length_cons, Nat.add_comm]
      exact congrArg (· + 1) ih

/-- A parameter has a question mark for each of its values. -/
theorem Operator.Takes.count_bound {op : Operator} {p : Param} {phrase : String} {bound : List BoundParam}
    (h : op.Takes (.bound p) phrase bound) : phrase.toList.count '?' = p.size := by
  cases h with
  | scalar hop v t =>
    show (op.text ++ " ?").toList.count '?' = 1
    cases op <;> decide
  | range ha hb t =>
    show "BETWEEN ? AND ?".toList.count '?' = 2
    decide
  | @oneOf vs hvs t =>
    have hin : "IN (".toList.count '?' = 0 := by decide
    have hend : ")".toList.count '?' = 0 := by decide
    rw [String.toList_append, String.toList_append, List.count_append, List.count_append, hin, hend,
      count_placeholders, Nat.zero_add]
    rfl

/-- The literal of a value beside an operator is neutral. -/
theorem Value.isNeutral_written {v : Value} (hv : v.isComparable = true) : IsNeutral v.written.toList := by
  cases v with
  | null => cases hv
  | bool b => cases hv
  | int i => exact (isPlain_intRepr i).isNeutral
  | float x => exact (isPlain_write x).isNeutral
  | text s =>
    rw [written, Literal.toList_quote]
    exact isNeutral_quoteChars s.toList

theorem isNeutral_intercalate {texts : List String} (h : ∀ t ∈ texts, IsNeutral t.toList) :
    IsNeutral (", ".intercalate texts).toList := by
  have hcomma : IsNeutral ", ".toList := by decide
  induction texts with
  | nil => exact ⟨rfl, rfl⟩
  | cons t rest ih =>
    obtain ⟨ht, hrest⟩ := List.forall_mem_cons.mp h
    cases rest with
    | nil => rwa [String.intercalate_singleton]
    | cons u rest =>
      rw [String.intercalate_cons_cons, String.toList_append, String.toList_append]
      exact (ht.append hcomma).append (ih hrest)

/-- Nothing that is written out is counted as a placeholder. -/
theorem Operator.Takes.isNeutral {op : Operator} {operand : Operand} {phrase : String}
    {bound : List BoundParam} (h : op.Takes operand phrase bound) (hout : operand.isWrittenOut = true) :
    IsNeutral phrase.toList := by
  cases h with
  | scalar | range | oneOf | subquery => cases hout
  | isNull => decide
  | isNotNull => decide
  | literal hop hv =>
    have hop : IsNeutral (op.text ++ " ").toList := by cases op <;> decide
    rw [String.toList_append]
    exact hop.append (Value.isNeutral_written hv)
  | literalRange ha hb =>
    have hbetween : IsNeutral "BETWEEN ".toList := by decide
    have hand : IsNeutral " AND ".toList := by decide
    simp only [String.toList_append]
    exact ((hbetween.append (Value.isNeutral_written ha)).append hand).append (Value.isNeutral_written hb)
  | @literals vs hvs hall =>
    have hin : IsNeutral "IN (".toList := by decide
    have hend : IsNeutral ")".toList := by decide
    have hlist : IsNeutral (", ".intercalate (vs.map Value.written)).toList := by
      refine isNeutral_intercalate fun t ht => ?_
      obtain ⟨v, hv, rfl⟩ := List.mem_map.mp ht
      exact Value.isNeutral_written (hall v hv)
    simp only [String.toList_append]
    exact (hin.append hlist).append hend

/-! ## Operands that no row fits -/

theorem Param.takes_of_checks {op : Operator} {p : Param} (h : ∀ k ∈ p.checks op, k.passes = true) :
    ∃ phrase bound, op.Takes (.bound p) phrase bound := by
  obtain ⟨content, type⟩ := p
  cases op with
  | between =>
    obtain ⟨hsize, hnumeric, -⟩ := by simpa only [checks, List.forall_mem_cons] using h
    match content with
    | .scalar v => cases hsize
    | .list [] | .list [_] | .list (_ :: _ :: _ :: _) => cases hsize
    | .list [a, b] =>
      have hall : ∀ v ∈ [a, b], v.isNumeric = true := List.all_eq_true.mp hnumeric
      obtain ⟨ha, hb, -⟩ := by simpa only [List.forall_mem_cons] using hall
      exact ⟨_, _, .range ha hb type⟩
  | oneOf =>
    obtain ⟨hlist, hsize, -⟩ := by simpa only [checks, List.forall_mem_cons] using h
    match content with
    | .scalar v => cases hlist
    | .list [] => cases hsize
    | .list (v :: vs) => exact ⟨_, _, .oneOf (List.cons_ne_nil v vs) type⟩
  | equal | less | greater | atMost | atLeast | unequal | like =>
    have hscalar := h _ List.mem_cons_self
    cases content with
    | scalar v => exact ⟨_, _, .scalar rfl v type⟩
    | list vs => cases hscalar

theorem Value.takes_of_checks {op : Operator} {v : Value} (h : ∀ k ∈ v.checks op, k.passes = true) :
    ∃ phrase bound, op.Takes (.inlined v) phrase bound := by
  cases op with
  | between | oneOf => cases h _ List.mem_cons_self
  | equal | less | greater | atMost | atLeast | unequal | like =>
    exact ⟨_, _, .literal rfl (h _ List.mem_cons_self)⟩

theorem takes_of_listChecks {op : Operator} {vs : List Value}
    (h : ∀ k ∈ listChecks op vs, k.passes = true) :
    ∃ phrase bound, op.Takes (.inlinedList vs) phrase bound := by
  cases op with
  | between =>
    obtain ⟨hlength, hall⟩ := List.forall_mem_cons.mp h
    match vs with
    | [] | [_] | _ :: _ :: _ :: _ => cases hlength
    | [a, b] =>
      have ha := hall _ List.mem_cons_self
      have hb := hall _ (List.mem_cons_of_mem _ List.mem_cons_self)
      exact ⟨_, _, .literalRange ha hb⟩
  | oneOf =>
    obtain ⟨hlength, hall⟩ := List.forall_mem_cons.mp h
    cases vs with
    | nil => cases hlength
    | cons v rest =>
      refine ⟨_, _, .literals (List.cons_ne_nil v rest) fun w hw => ?_⟩
      exact hall _ (List.mem_map_of_mem hw)
  | equal | less | greater | atMost | atLeast | unequal | like => cases h _ List.mem_cons_self

/-- If all checks of an operand pass, a row fits it. -/
theorem Operand.takes_of_checks {op : Operator} {operand : Operand}
    (h : ∀ k ∈ operand.checks op, k.passes = true) : ∃ phrase bound, op.Takes operand phrase bound := by
  cases operand with
  | null =>
    rw [checks] at h
    have hop := h _ List.mem_cons_self
    cases op with
    | equal => exact ⟨_, _, .isNull⟩
    | unequal => exact ⟨_, _, .isNotNull⟩
    | less | greater | atMost | atLeast | like | between | oneOf => cases hop
  | bound p =>
    rw [checks] at h
    exact Param.takes_of_checks h
  | inlined v =>
    rw [checks] at h
    exact Value.takes_of_checks h
  | inlinedList vs =>
    rw [checks] at h
    exact takes_of_listChecks h
  | subquery s =>
    rw [checks] at h
    obtain ⟨hop, hquery⟩ := List.forall_mem_cons.mp h
    have hfault : fault? s.script = none := s.obeys_script.trans (firstFailure_eq_none_iff.mpr hquery)
    cases eq_of_beq hop
    exact ⟨_, _, .subquery (Statement.prepare_eq_ok_iff.mpr ⟨hfault, rfl⟩)⟩

/-- Whatever is wrong with an operand, the fault is of the kind that the operator and the operand call for. -/
theorem Operand.kind_of_mem_checks {op : Operator} {operand : Operand}
    (hquery : ∀ s, operand ≠ .subquery s) {k : Check} (hk : k ∈ operand.checks op) :
    k.fault.kind = op.refusal operand := by
  cases operand with
  | null =>
    rw [checks, List.mem_singleton] at hk
    rw [hk]
    rfl
  | bound p =>
    rw [checks] at hk
    cases op with
    | between | oneOf =>
      rcases List.mem_cons.mp hk with rfl | hk
      · rfl
      · rw [List.mem_singleton.mp hk]
        rfl
    | equal | less | greater | atMost | atLeast | unequal | like =>
      rw [List.mem_singleton.mp hk]
      rfl
  | inlined v =>
    rw [checks] at hk
    cases op <;> rw [List.mem_singleton.mp hk] <;> rfl
  | inlinedList vs =>
    rw [checks] at hk
    cases op with
    | between | oneOf =>
      rcases List.mem_cons.mp hk with rfl | hk
      · rfl
      · obtain ⟨v, -, rfl⟩ := List.mem_map.mp hk
        rfl
    | equal | less | greater | atMost | atLeast | unequal | like =>
      rw [List.mem_singleton.mp hk]
      rfl
  | subquery s => exact absurd rfl (hquery s)

/-- A parameter that does not fit is not bound. -/
theorem Param.bindings_comparand_of_fault {op : Operator} {p : Param} {f : Fault}
    (h : fault? (p.comparand op) = some f) : Script.bindings (p.comparand op) = [] := by
  obtain ⟨content, type⟩ := p
  -- A row has no fault, and what no row fits is a fault and nothing else.
  cases op with
  | between =>
    match content with
    | .scalar v => rfl
    | .list [] | .list [_] | .list (_ :: _ :: _ :: _) => rfl
    | .list [a, b] =>
      by_cases hnumeric : (a.isNumeric && b.isNumeric) = true
      · rw [Bool.and_eq_true] at hnumeric
        have hnone := (writes_range hnumeric.1 hnumeric.2 type).1
        rw [hnone] at h
        cases h
      · show Script.bindings (if a.isNumeric && b.isNumeric then _ else _) = []
        rw [if_neg hnumeric]
        rfl
  | oneOf =>
    match content with
    | .scalar v => rfl
    | .list [] => rfl
    | .list (v :: vs) =>
      have hnone := (writes_oneOf (List.cons_ne_nil v vs) type).1
      rw [hnone] at h
      cases h
  | equal | less | greater | atMost | atLeast | unequal | like =>
    cases content with
    | scalar v => cases h
    | list vs => rfl

/-- A comparison with no row is not bound in part, unless a query of its own is. -/
theorem Comparison.bindings_of_fault {c : Comparison}
    (hquery : ∀ s, c.operand = .subquery s → c.operator ≠ .oneOf) {f : Fault}
    (h : fault? c.script = some f) : bindings c.script = [] := by
  obtain ⟨field, op, operand, negated⟩ := c
  cases operand with
  | null | inlined v | inlinedList vs =>
    -- What is written out has no parameters.
    exact List.prefix_nil.mp (binds_script _).1
  | bound p =>
    rw [script_eq rfl, bindings_sentence]
    rw [script_eq rfl, fault?_sentence] at h
    rw [Operand.comparand] at h ⊢
    exact Param.bindings_comparand_of_fault h
  | subquery s =>
    rw [script_eq rfl, bindings_sentence, Operand.comparand, if_neg (hquery s rfl)]
    rfl

/-- The kind of the fault of a comparison, unless it is the fault of a query of its own. -/
theorem Comparison.kind_of_fault {c : Comparison}
    (hquery : ∀ s, c.operand = .subquery s → c.operator ≠ .oneOf) {f : Fault}
    (h : fault? c.script = some f) : f.kind = c.operator.refusal c.operand := by
  obtain ⟨field, op, operand, negated⟩ := c
  rw [obeys_script, checks] at h
  cases operand with
  | null | bound p | inlined v | inlinedList vs =>
    exact Operand.kind_of_mem_checks (by simp) (mem_of_firstFailure h)
  | subquery s =>
    rw [Operand.checks, beq_eq_false_iff_ne.mpr (hquery s rfl)] at h
    cases h
    rfl

/-- A query under IN that cannot be rendered leaves what it leaves by itself. -/
theorem Comparison.renderAfter_query_of_fault {field : String} {negated : Bool} {s : Select} {f : Fault}
    (h : fault? s.script = some f) (earlier : List BoundParam) :
    Script.renderAfter (script ⟨field, .oneOf, .subquery s, negated⟩) earlier =
      s.script.renderAfter earlier := by
  have hwhole : fault? (script ⟨field, .oneOf, .subquery s, negated⟩) = some f := by
    rw [script_eq rfl, Operand.comparand, if_pos rfl, fault?_sentence, fault?_inParens, h]
  have hbindings : bindings (script ⟨field, .oneOf, .subquery s, negated⟩) = bindings s.script := by
    rw [script_eq rfl, Operand.comparand, if_pos rfl, bindings_sentence, bindings_inParens]
  rw [renderAfter_eq, renderAfter_eq, render_eq_error_iff.mpr hwhole, render_eq_error_iff.mpr h, hbindings]

/-! ## The law of all comparisons -/

/-- **Comparisons follow the table.** A comparison is rendered if a row fits its operator and its operand, and
    only then. It is written as the row says, with the negation in its place, and binds what its operand
    holds; a parameter has a question mark for each value, and what is written out has no placeholder. If
    no row fits, nothing is bound and the fault is of the kind that the operator and the operand call for;
    only a query under IN that cannot be rendered fails in its own way. -/
theorem Comparison.renderAfter_decides (c : Comparison) (earlier : List BoundParam) :
    ((∃ sql, (c.script.renderAfter earlier).outcome = .ok sql) ↔
        ∃ phrase bound, c.operator.Takes c.operand phrase bound) ∧
      (∀ phrase bound, c.operator.Takes c.operand phrase bound →
        c.script.renderAfter earlier = ⟨.ok (c.textWith phrase), earlier ++ bound⟩ ∧
          bound = c.operand.params ∧
          (∀ p, c.operand = .bound p → phrase.toList.count '?' = p.size) ∧
          (c.operand.isWrittenOut = true → placeholderCount phrase = 0)) ∧
      ∀ f, (c.script.renderAfter earlier).outcome = .error f →
        ((∀ s, c.operand = .subquery s → c.operator ≠ .oneOf) →
          (c.script.renderAfter earlier).params = earlier ∧ f.kind = c.operator.refusal c.operand) ∧
        ∀ s, c.operand = .subquery s → c.operator = .oneOf →
          c.script.renderAfter earlier = s.script.renderAfter earlier := by
  refine ⟨⟨?_, ?_⟩, ?_, ?_⟩
  · rintro ⟨sql, hsql⟩
    rw [renderAfter_eq] at hsql
    have hnone : firstFailure c.checks = none := c.obeys_script.symm.trans (render_eq_ok_iff.mp hsql).1
    obtain ⟨field, op, operand, negated⟩ := c
    rw [checks] at hnone
    exact Operand.takes_of_checks (firstFailure_eq_none_iff.mp hnone)
  · rintro ⟨phrase, bound, htakes⟩
    exact ⟨_, congrArg Rendering.outcome (htakes.writes.renderAfter earlier)⟩
  · intro phrase bound htakes
    obtain ⟨hfault, -, hbound⟩ := htakes.writes
    refine ⟨htakes.writes.renderAfter earlier, ?_, ?_, fun hout => (htakes.isNeutral hout).2⟩
    · have hall := c.binds_script.2 hfault
      obtain ⟨field, op, operand, negated⟩ := c
      exact hbound.symm.trans hall
    · intro p hp
      rw [hp] at htakes
      exact htakes.count_bound
  · intro f hf
    rw [renderAfter_eq] at hf ⊢
    have hfault := render_eq_error_iff.mp hf
    refine ⟨fun hquery => ⟨?_, kind_of_fault hquery hfault⟩, ?_⟩
    · show earlier ++ bindings c.script = earlier
      rw [bindings_of_fault hquery hfault, List.append_nil]
    · obtain ⟨field, op, operand, negated⟩ := c
      rintro s rfl rfl
      rw [script_eq rfl, Operand.comparand, if_pos rfl, fault?_sentence, fault?_inParens] at hfault
      rw [← renderAfter_eq, renderAfter_query_of_fault hfault]

/-- A negated list under IN, behind a parameter that is already bound. -/
example :
    let names : Param := ⟨.list [.text "a", .text "b"], .string⟩
    Script.renderAfter (Comparison.script ⟨"name", .oneOf, .bound names, true⟩) [⟨.int 1, .integer⟩] =
      ⟨.ok "name NOT IN (?, ?)", ⟨.int 1, .integer⟩ :: names.bindings⟩ := by
  rfl

end BoundSql
