import BoundSql.Proofs.Composition
import BoundSql.Proofs.Reading

/-!
# `BoundSql.Proofs.Unambiguity` — a rendered predicate determines its terms

BETWEEN has an AND of its own, NOT stands in front of a field, behind it or before a parenthesis, and a
parenthesis opens a group or a list. A reader who goes from left to right is never in doubt all the same:
behind a field comes one of a few verbs, none of which begins another one, and the verb tells what stands
on the right and where it ends. So two predicates over plain field names that come out as the same text
with the same parameters have the same terms.

## Contents
- **`Comparison.IsSimple`** asks for a field name that is a word and for an operand without a query and
  without numbers of other kinds than integers; `Predicate.comparisons` collects what has to be simple.
- **`Verb`** is what stands behind a field, up to the right side; `Verb.write_text_inj`.
- **`Right`** lists the forms of a right side; `Right.emit_inj`, and `Operand.right_comparand` gets the operand
  back from its atoms.
- **`Comparison.body_inj`**, **`Term.emit_inj`** and **`Predicate.emit_inj`** go up the tree, and
  **`Predicate.eq_of_renderAfter`** is about renderings.
-/

namespace BoundSql

open Script

/-! ## Simple predicates -/

/-- A small letter, a digit, an underscore or a point. -/
def isWordChar (c : Char) : Bool :=
  c.isLower || c.isDigit || c == '_' || c == '.'

/-- A text of word characters that is not empty. -/
def IsWord (s : String) : Prop :=
  s.toList ≠ [] ∧ ∀ c ∈ s.toList, isWordChar c = true

instance (s : String) : Decidable (IsWord s) :=
  have := List.decidableBAll (fun c => isWordChar c = true) s.toList
  inferInstanceAs (Decidable (_ ∧ _))

/-- The atom that is written for an integer or a text. -/
def Value.atom? : Value → Option Atom
  | .int i => some (.int i)
  | .text s => some (.text s)
  | .null | .bool _ | .float _ => none

/-- Whether the operand is NULL, a parameter, or values that are written out as integers or texts. -/
def Operand.isSimple : Operand → Bool
  | .null | .bound _ => true
  | .inlined v => v.atom?.isSome
  | .inlinedList vs => vs.all fun v => v.atom?.isSome
  | .subquery _ => false

/-- A comparison of a word with a simple operand. -/
def Comparison.IsSimple (c : Comparison) : Prop :=
  IsWord c.field ∧ c.operand.isSimple = true

instance (c : Comparison) : Decidable c.IsSimple :=
  inferInstanceAs (Decidable (_ ∧ _))

mutual

/-- The comparisons of a term, at any depth. -/
def Term.comparisons : Term → List Comparison
  | .comparison c => [c]
  | .group p => p.comparisons

/-- The comparisons of joined terms. -/
def linksComparisons : List Link → List Comparison
  | [] => []
  | { term, .. } :: rest => term.comparisons ++ linksComparisons rest

/-- The comparisons of a chain. -/
def Chain.comparisons : Chain → List Comparison
  | { first, rest } => first.comparisons ++ linksComparisons rest

/-- The comparisons of a chain, if there is one. -/
def chainComparisons : Option Chain → List Comparison
  | none => []
  | some c => c.comparisons

/-- The comparisons of a predicate, at any depth. -/
def Predicate.comparisons : Predicate → List Comparison
  | { chain, .. } => chainComparisons chain

end

/-! ## Verbs -/

/-- What stands between a field and the right side: a test for NULL, or an operator, with the negation of
    the comparison. -/
structure Verb where
  isTest : Bool
  operator : Operator
  negated : Bool
  deriving DecidableEq

namespace Verb

/-- Whether NOT stands in front of the field. -/
def inFront (v : Verb) : Bool :=
  v.negated && !v.operator.negatesInside

/-- What is written behind the field. -/
def text (v : Verb) : String :=
  if v.isTest then if v.operator = .equal then " IS NULL" else " IS NOT NULL"
  else (if v.negated && v.operator.negatesInside then " NOT " else " ") ++ (v.operator.text ++ " ")

/-- Every verb once. -/
def all : List Verb :=
  [⟨true, .equal, false⟩, ⟨true, .equal, true⟩, ⟨true, .unequal, false⟩, ⟨true, .unequal, true⟩] ++
    Operator.all.flatMap fun op => [⟨false, op, false⟩, ⟨false, op, true⟩]

/-- No verb begins another one. -/
theorem eq_of_isPrefix : ∀ v ∈ all, ∀ w ∈ all, v.inFront = w.inFront →
    v.text.toList <+: w.text.toList → v = w := by
  decide +kernel

/-- A verb starts with a blank. -/
theorem head?_text : ∀ v ∈ all, v.text.toList.head? = some ' ' := by
  decide +kernel

theorem before_write {v : Verb} (hv : v ∈ all) (o : Output) : (o.write v.text.toList).Before [' '] := by
  obtain ⟨cs, htext⟩ := List.head?_eq_some_iff.mp (head?_text v hv)
  intro x hx
  rw [Output.write, htext] at hx
  cases hx
  exact List.mem_singleton_self ' '

/-- Verbs that agree on a NOT in front of the field are the same if they are followed by the same text, since
    then one of them begins the other one. -/
theorem write_text_inj {v w : Verb} (hv : v ∈ all) (hw : w ∈ all) (hfront : v.inFront = w.inFront)
    {o o' : Output} (h : o.write v.text.toList = o'.write w.text.toList) : v = w ∧ o = o' := by
  have hleft : v.text.toList <+: (o'.write w.text.toList).chars := ⟨o.chars, congrArg Output.chars h⟩
  have hright : w.text.toList <+: (o'.write w.text.toList).chars := List.prefix_append _ _
  have hverb : v = w := by
    rcases List.prefix_or_prefix_of_prefix hleft hright with hpre | hpre
    · exact eq_of_isPrefix v hv w hw hfront hpre
    · exact (eq_of_isPrefix w hw v hv hfront.symm hpre).symm
  rw [hverb] at h
  exact ⟨hverb, Output.write_inj h⟩

end Verb

/-! ## Right sides -/

/-- The forms of a right side: one atom, two with AND between them, or a list in parentheses. -/
inductive Right : Operator → List Atom → Script → Prop where
  | one {op : Operator} {a : Atom} (h : op.takesOneValue = true) : Right op [a] [a.piece]
  | two {a b : Atom} : Right .between [a, b] [a.piece, .keyword " AND ", b.piece]
  | many {a : Atom} {rest : List Atom} :
    Right .oneOf (a :: rest) (inParens (commaList ((a :: rest).map fun b => [b.piece])))

/-- The operator tells the form of the right side, and so which atoms stand there and where they end. -/
theorem Right.emit_inj {op : Operator} {as bs : List Atom} {s t : Script} (hs : Right op as s)
    (ht : Right op bs t) {o o' : Output} (ho : o.Before atomMarks) (ho' : o'.Before atomMarks)
    (h : s.emit o = t.emit o') : as = bs ∧ o = o' := by
  cases hs with
  | one hop =>
    cases ht with
    | one _ =>
      obtain ⟨rfl, hout⟩ := emit_atom_inj ho ho' h
      exact ⟨rfl, hout⟩
    | two | many => cases hop
  | @two a b =>
    cases ht with
    | one hop => cases hop
    | @two c d =>
      -- Behind the first atom there is a blank.
      have hblank (e : Atom) (o : Output) : ((e.piece.emit o).write " AND ".toList).Before atomMarks := by
        intro c hc
        cases hc
        decide
      obtain ⟨rfl, hrest⟩ := emit_atom_inj (hblank b o) (hblank d o') h
      obtain ⟨rfl, hout⟩ := emit_atom_inj ho ho' (Output.write_inj hrest)
      exact ⟨rfl, hout⟩
  | @many a as =>
    cases ht with
    | one hop => cases hop
    | @many b bs =>
      rw [emit_inParens, emit_inParens, commaList_atoms, commaList_atoms] at h
      obtain ⟨rfl, hrest⟩ := emit_atom_inj (before_emit_moreAtoms as o) (before_emit_moreAtoms bs o')
        (Output.write_inj h)
      obtain ⟨rfl, hout⟩ := emit_moreAtoms_inj hrest
      exact ⟨rfl, hout⟩

/-- The value of an atom. -/
def Atom.value : Atom → Value
  | .bound p => p.value
  | .int i => .int i
  | .text s => .text s

namespace Operand

theorem eq_null {o : Operand} (h : o.isNull = true) : o = .null := by
  cases o with
  | null => rfl
  | bound p | inlined v | inlinedList vs | subquery s => cases h

/-- The atoms of an operand. -/
def atoms : Operand → List Atom
  | .bound p => p.bindings.map .bound
  | .inlined v => v.atom?.toList
  | .inlinedList vs => vs.filterMap Value.atom?
  | .null | .subquery _ => []

/-- The operand with certain atoms to the right of an operator. -/
def ofAtoms (op : Operator) : List Atom → Operand
  | [] => .null
  | .bound p :: rest =>
    .bound ⟨if op.takesOneValue then .scalar p.value else .list (p.value :: rest.map Atom.value), p.type⟩
  | a :: rest =>
    if op.takesOneValue then .inlined a.value else .inlinedList (a.value :: rest.map Atom.value)

/-- Values that are written out as integers and texts are the atoms that stand for them. -/
theorem map_filterMap_atom? (op : Operator) {vs : List Value} (h : vs.all (fun v => v.atom?.isSome) = true) :
    (vs.map fun v => [Piece.ofExcept (v.comparand op)]) =
        ((vs.filterMap Value.atom?).map fun a => [a.piece]) ∧
      (vs.filterMap Value.atom?).map Atom.value = vs := by
  induction vs with
  | nil => exact ⟨rfl, rfl⟩
  | cons v vs ih =>
    rw [List.all_cons, Bool.and_eq_true] at h
    obtain ⟨hpieces, hvalues⟩ := ih h.2
    cases v with
    | int i | text s => exact ⟨congrArg (_ :: ·) hpieces, congrArg (_ :: ·) hvalues⟩
    | null | bool b | float x => cases h.1

/-- What a parameter leaves to the right of an operator, if it fits there. -/
theorem right_bound {op : Operator} {p : Param} (hfault : fault? (p.comparand op) = none) :
    Right op (bound p).atoms (p.comparand op) ∧ ofAtoms op (bound p).atoms = bound p := by
  obtain ⟨content, type⟩ := p
  cases op with
  | between =>
    cases content with
    | scalar v => cases hfault
    | list vs =>
      rcases vs with _ | ⟨a, _ | ⟨b, _ | ⟨c, vs⟩⟩⟩
      · cases hfault
      · cases hfault
      · simp only [Param.comparand] at hfault ⊢
        split at hfault
        · rename_i hnumeric
          rw [if_pos hnumeric]
          exact ⟨.two, rfl⟩
        · cases hfault
      · cases hfault
  | oneOf =>
    cases content with
    | scalar v => cases hfault
    | list vs =>
      rcases vs with _ | ⟨v, vs⟩
      · cases hfault
      · have hpieces : (vs.map fun w => [Piece.placeholder ⟨w, type⟩]) =
            ((vs.map fun w => ⟨w, type⟩).map Atom.bound).map fun a => [a.piece] := by
          rw [List.map_map, List.map_map]
          rfl
        have hvalues : ((vs.map fun w => (⟨w, type⟩ : BoundParam)).map Atom.bound).map Atom.value = vs := by
          rw [List.map_map, List.map_map]
          exact List.map_id vs
        have hscript : Param.comparand .oneOf ⟨.list (v :: vs), type⟩ = inParens (commaList
            ([.placeholder ⟨v, type⟩] :: vs.map fun w => [.placeholder ⟨w, type⟩])) := rfl
        rw [hscript, hpieces]
        exact ⟨.many, congrArg (fun ws => bound ⟨.list (v :: ws), type⟩) hvalues⟩
  | equal | less | greater | atMost | atLeast | unequal | like =>
    cases content with
    | scalar v => exact ⟨.one rfl, rfl⟩
    | list vs => cases hfault

/-- What a list of values leaves to the right of an operator, if it is written out and fits there. -/
theorem right_inlinedList {op : Operator} {vs : List Value}
    (hsimple : vs.all (fun v => v.atom?.isSome) = true) (hfault : fault? (listComparand op vs) = none) :
    Right op (inlinedList vs).atoms (listComparand op vs) ∧
      ofAtoms op (inlinedList vs).atoms = inlinedList vs := by
  cases op with
  | between =>
    rcases vs with _ | ⟨a, _ | ⟨b, _ | ⟨c, vs⟩⟩⟩
    · cases hfault
    · cases hfault
    · simp only [List.all_cons, Bool.and_eq_true] at hsimple
      obtain ⟨ha, hb, -⟩ := hsimple
      cases a with
      | null | bool x | float x => cases ha
      | int i | text s =>
        cases b with
        | null | bool x | float x => cases hb
        | int j | text t => exact ⟨.two, rfl⟩
    · cases hfault
  | oneOf =>
    rcases vs with _ | ⟨v, vs⟩
    · cases hfault
    · rw [List.all_cons, Bool.and_eq_true] at hsimple
      obtain ⟨hpieces, hvalues⟩ := map_filterMap_atom? .oneOf hsimple.2
      have hscript : listComparand .oneOf (v :: vs) = inParens (commaList
          ([.ofExcept (v.comparand .oneOf)] :: vs.map fun w => [.ofExcept (w.comparand .oneOf)])) := rfl
      rw [hscript, hpieces]
      cases v with
      | null | bool x | float x => cases hsimple.1
      | int i | text s => exact ⟨.many, congrArg (fun ws => inlinedList (_ :: ws)) hvalues⟩
  | equal | less | greater | atMost | atLeast | unequal | like => cases hfault

/-- A simple operand that fits its operator has one of the forms of a right side, and it is the operand with
    the atoms that stand there. -/
theorem right_comparand {op : Operator} {o : Operand} (hsimple : o.isSimple = true)
    (hnull : o.isNull = false) (hfault : fault? (o.comparand op) = none) :
    Right op o.atoms (o.comparand op) ∧ ofAtoms op o.atoms = o := by
  cases o with
  | null => cases hnull
  | subquery s => cases hsimple
  | bound p =>
    rw [comparand] at hfault ⊢
    exact right_bound hfault
  | inlined v =>
    rw [comparand] at hfault ⊢
    cases v with
    | null | bool b | float x => cases hsimple
    | int i | text s =>
      cases op with
      | between | oneOf => cases hfault
      | equal | less | greater | atMost | atLeast | unequal | like => exact ⟨.one rfl, rfl⟩
  | inlinedList vs =>
    rw [comparand] at hfault ⊢
    exact right_inlinedList hsimple hfault

end Operand

/-! ## Comparisons -/

/-- The output behind NOT, if there is one. -/
def Output.writeNot (negated : Bool) (o : Output) : Output :=
  if negated then o.write "NOT ".toList else o

theorem emit_notBefore (negated : Bool) (s : Script) (o : Output) :
    (notBefore negated s).emit o = (s.emit o).writeNot negated := by
  cases negated <;> rfl

/-- Whether NOT was written shows, if what follows does not start with the same letter. -/
theorem Output.writeNot_inj {negated negated' : Bool} {o o' : Output}
    (hleft : ∀ c ∈ o.chars.head?, c ≠ 'N') (hright : ∀ c ∈ o'.chars.head?, c ≠ 'N')
    (h : o.writeNot negated = o'.writeNot negated') : negated = negated' ∧ o = o' := by
  cases negated with
  | false =>
    cases negated' with
    | false => exact ⟨rfl, h⟩
    | true =>
      have hnot : o = o'.write "NOT ".toList := h
      exact absurd rfl (hleft 'N' (hnot ▸ rfl))
  | true =>
    cases negated' with
    | false =>
      have hnot : o.write "NOT ".toList = o' := h
      exact absurd rfl (hright 'N' (hnot ▸ rfl))
    | true => exact ⟨rfl, write_inj h⟩

/-- A comparison with an operator, from its field on and behind NOT. -/
theorem emit_sentence (field : String) (op : Operator) (negated : Bool) (right : Script) (o : Output) :
    (sentence field op negated right).emit o =
      (((right.emit o).write (Verb.mk false op negated).text.toList).write field.toList).writeNot
        (Verb.mk false op negated).inFront := by
  unfold sentence
  cases hinside : op.negatesInside with
  | true =>
    have hfront : (Verb.mk false op negated).inFront = false := by simp [Verb.inFront, hinside]
    have htext : (Verb.mk false op negated).text.toList =
        (if negated then " NOT " else " ").toList ++ (op.text ++ " ").toList := by
      simp [Verb.text, hinside]
    rw [if_pos rfl, hfront, htext, Output.write_append]
    rfl
  | false =>
    have hfront : (Verb.mk false op negated).inFront = negated := by simp [Verb.inFront, hinside]
    have htext : (Verb.mk false op negated).text = " " ++ op.text ++ " " := by
      simp [Verb.text, hinside, String.append_assoc]
    rw [if_neg Bool.false_ne_true, emit_notBefore, hfront, htext]
    rfl

namespace Comparison

/-- The verb of a comparison. -/
def verb (c : Comparison) : Verb :=
  ⟨c.operand.isNull, c.operator, c.negated⟩

/-- What stands behind the verb. -/
def right (c : Comparison) : Script :=
  if c.operand.isNull then [] else c.operand.comparand c.operator

/-- The output of a comparison from its field on. -/
def body (c : Comparison) (o : Output) : Output :=
  ((c.right.emit o).write c.verb.text.toList).write c.field.toList

/-- A comparison that can be written is its field, its verb and its right side, possibly behind NOT. -/
theorem emit_script {c : Comparison} (h : fault? c.script = none) (o : Output) :
    c.script.emit o = (c.body o).writeNot c.verb.inFront ∧ c.verb ∈ Verb.all ∧
      fault? c.right = none := by
  obtain ⟨field, operator, operand, negated⟩ := c
  cases operand with
  | null =>
    have htest : ⟨true, .equal, negated⟩ ∈ Verb.all ∧ ⟨true, .unequal, negated⟩ ∈ Verb.all := by
      cases negated <;> decide
    rw [Comparison.script] at h ⊢
    cases operator with
    | equal =>
      refine ⟨?_, htest.1, rfl⟩
      cases negated <;> rfl
    | unequal =>
      refine ⟨?_, htest.2, rfl⟩
      cases negated <;> rfl
    | less | greater | atMost | atLeast | like | between | oneOf => cases h
  | bound p | inlined v | inlinedList vs | subquery s =>
    have hverb : ⟨false, operator, negated⟩ ∈ Verb.all := by
      cases operator <;> cases negated <;> decide
    rw [Comparison.script] at h ⊢
    · rw [fault?_sentence] at h
      exact ⟨emit_sentence field operator negated _ o, hverb, h⟩
    · simp
    · simp

/-- From its field on, a comparison starts with a word character. -/
theorem head?_body {c : Comparison} (hc : c.IsSimple) (o : Output) :
    ∀ x ∈ (c.body o).chars.head?, isWordChar x = true := by
  obtain ⟨⟨hne, hword⟩, -⟩ := hc
  obtain ⟨w, cs, hfield⟩ := List.exists_cons_of_ne_nil hne
  intro x hx
  rw [body, Output.write, hfield] at hx
  cases hx
  exact hword w (hfield ▸ List.mem_cons_self)

/-- The right sides of comparisons with the same verb are the same, and so is what follows them. -/
theorem right_inj {c d : Comparison} (hc : c.operand.isSimple = true) (hd : d.operand.isSimple = true)
    (hverb : c.verb = d.verb) (hfc : fault? c.right = none) (hfd : fault? d.right = none)
    {o o' : Output} (ho : o.Before atomMarks) (ho' : o'.Before atomMarks)
    (h : c.right.emit o = d.right.emit o') : c.operand = d.operand ∧ o = o' := by
  obtain ⟨hnull, hop, -⟩ := Verb.mk.inj hverb
  unfold right at hfc hfd h
  cases hn : c.operand.isNull with
  | true =>
    have hleft := Operand.eq_null hn
    have hright := Operand.eq_null (hnull ▸ hn)
    rw [hleft, hright]
    rw [hleft, hright] at h
    exact ⟨rfl, h⟩
  | false =>
    have hn' : d.operand.isNull = false := hnull ▸ hn
    rw [hn, if_neg Bool.false_ne_true] at hfc h
    rw [hn', if_neg Bool.false_ne_true] at hfd h
    rw [← hop] at hfd h
    obtain ⟨hright, hatoms⟩ := Operand.right_comparand hc hn hfc
    obtain ⟨hright', hatoms'⟩ := Operand.right_comparand hd hn' hfd
    obtain ⟨has, hout⟩ := hright.emit_inj hright' ho ho' h
    rw [← hatoms, ← hatoms', has]
    exact ⟨rfl, hout⟩

/-- Comparisons that agree on a NOT in front of them are the same if they are the same from the field on, and
    so is what follows them. -/
theorem body_inj {c d : Comparison} (hc : c.IsSimple) (hd : d.IsSimple) (hfc : fault? c.script = none)
    (hfd : fault? d.script = none) (hfront : c.verb.inFront = d.verb.inFront) {o o' : Output}
    (ho : o.Before atomMarks) (ho' : o'.Before atomMarks) (h : c.body o = d.body o') : c = d ∧ o = o' := by
  obtain ⟨-, hvc, hrc⟩ := emit_script hfc o
  obtain ⟨-, hvd, hrd⟩ := emit_script hfd o'
  -- The field ends at the blank of the verb.
  have hstop : ∀ x ∈ [' '], isWordChar x = false := by simp [isWordChar, Char.isLower, Char.isDigit]
  obtain ⟨hfield, htail⟩ := Output.write_word_inj hc.1.2 hd.1.2 hstop (Verb.before_write hvc _)
    (Verb.before_write hvd _) h
  obtain ⟨hverb, hright⟩ := Verb.write_text_inj hvc hvd hfront htail
  obtain ⟨hoperand, hout⟩ := right_inj hc.2 hd.2 hverb hrc hrd ho ho' hright
  obtain ⟨-, hop, hnegated⟩ := Verb.mk.inj hverb
  obtain ⟨field, operator, operand, negated⟩ := c
  obtain ⟨field', operator', operand', negated'⟩ := d
  cases String.toList_inj.mp hfield
  cases hop
  cases hoperand
  cases hnegated
  exact ⟨rfl, hout⟩

end Comparison

/-! ## The tree -/

/-- The marks that may follow a term. -/
def termMarks : List Char := [' ', ')']

theorem before_atomMarks {o : Output} (ho : o.Before termMarks) : o.Before atomMarks := by
  have hmarks : ∀ c ∈ termMarks, c ∈ atomMarks := by simp [termMarks, atomMarks]
  exact fun c hc => hmarks c (ho c hc)

theorem ne_of_isWordChar {x : Char} (hx : isWordChar x = true) : x ≠ 'N' ∧ x ≠ '(' := by
  constructor <;> rintro rfl <;> revert hx <;> decide

theorem fault?_grouped (negated : Bool) (s : Script) : fault? (grouped negated s) = fault? s := by
  cases negated <;> exact fault?_inParens s

/-- Predicates are the same if all their parts are. -/
theorem Predicate.eq_of_parts {p q : Predicate} (hchain : p.chain = q.chain)
    (hnegated : p.negated = q.negated) (hfault : p.fault = q.fault) : p = q := by
  obtain ⟨chain, negated, fault⟩ := p
  obtain ⟨chain', negated', fault'⟩ := q
  cases hchain
  cases hnegated
  cases hfault
  rfl

/-- The output of a group, from its parenthesis on. -/
def Predicate.body (p : Predicate) (o : Output) : Output :=
  (p.script.emit (o.write [')'])).write ['(']

namespace Term

/-- Whether NOT stands in front of the term. -/
def inFront : Term → Bool
  | .comparison c => c.verb.inFront
  | .group p => p.negated

/-- The output of a term, from its field or its parenthesis on. -/
def body (o : Output) : Term → Output
  | .comparison c => c.body o
  | .group p => p.body o

/-- A term that can be written is its body, possibly behind NOT. -/
theorem emit_script {t : Term} (h : fault? t.script = none) (o : Output) :
    t.script.emit o = (t.body o).writeNot t.inFront := by
  cases t with
  | comparison c =>
    rw [Term.script] at h ⊢
    exact (Comparison.emit_script h o).1
  | group p =>
    rw [Term.script, grouped, emit_notBefore, emit_inParens]
    rfl

/-- No body looks like a NOT. -/
theorem head?_body {t : Term} (ht : ∀ c ∈ t.comparisons, c.IsSimple) (o : Output) :
    ∀ x ∈ (t.body o).chars.head?, x ≠ 'N' := by
  intro x hx
  cases t with
  | comparison c =>
    have hc := ht c (List.mem_singleton_self c)
    exact (ne_of_isWordChar (Comparison.head?_body hc o x hx)).1
  | group p =>
    cases hx
    decide

/-- A comparison is never taken for a group. -/
theorem body_comparison_ne_body_group {c : Comparison} (hc : c.IsSimple) (p : Predicate) (o o' : Output) :
    c.body o ≠ p.body o' := by
  intro h
  have hopen : '(' ∈ (c.body o).chars.head? := h ▸ rfl
  exact (ne_of_isWordChar (Comparison.head?_body hc o '(' hopen)).2 rfl

/-- Terms that come out the same agree on a NOT in front of them and on what follows it. -/
theorem inFront_and_body_eq {t u : Term} (ht : ∀ c ∈ t.comparisons, c.IsSimple)
    (hu : ∀ c ∈ u.comparisons, c.IsSimple) (hft : fault? t.script = none) (hfu : fault? u.script = none)
    {o o' : Output} (h : t.script.emit o = u.script.emit o') :
    t.inFront = u.inFront ∧ t.body o = u.body o' := by
  rw [emit_script hft, emit_script hfu] at h
  exact Output.writeNot_inj (head?_body ht o) (head?_body hu o') h

end Term

/-- Behind the terms of a chain that ends at a parenthesis there is a blank or the parenthesis. -/
theorem before_emit_linksScript (links : List Link) {o : Output} (ho : o.Before [')']) :
    ((linksScript links).emit o).Before termMarks := by
  cases links with
  | nil => exact fun c hc => List.mem_cons_of_mem ' ' (ho c hc)
  | cons link rest =>
    obtain ⟨connective, term⟩ := link
    rw [linksScript]
    intro c hc
    cases connective with
    | and | or =>
      cases hc
      decide

theorem before_paren (o : Output) : (o.write [')']).Before [')'] := by
  intro c hc
  cases hc
  exact List.mem_singleton_self ')'

/-- The words between two terms determine the connective. -/
theorem Connective.emit_inj {k k' : Connective} {o o' : Output}
    (h : o.write (" " ++ k.text ++ " ").toList = o'.write (" " ++ k'.text ++ " ").toList) :
    k = k' ∧ o = o' := by
  cases k with
  | and =>
    cases k' with
    | and => exact ⟨rfl, Output.write_inj h⟩
    | or =>
      obtain ⟨-, hsecond⟩ := List.cons.inj (congrArg Output.chars h)
      exact absurd (List.cons.inj hsecond).1 (by decide)
  | or =>
    cases k' with
    | and =>
      obtain ⟨-, hsecond⟩ := List.cons.inj (congrArg Output.chars h)
      exact absurd (List.cons.inj hsecond).1 (by decide)
    | or => exact ⟨rfl, Output.write_inj h⟩

/-- Between two terms there is a blank, and none where a chain ends. -/
theorem Connective.ne_write (k : Connective) {o o' : Output} (ho : o.Before [')']) :
    o ≠ o'.write (" " ++ k.text ++ " ").toList := by
  rintro rfl
  have hblank := ho ' ' (by cases k <;> rfl)
  exact absurd hblank (by decide)

-- The recursion follows the first of the two trees. What stands behind a part is its output, so every
-- statement is about parts in front of two outputs and says that the outputs are the same as well.
mutual

/-- Simple terms in front of two outputs are the same, and so is what follows them. -/
theorem Term.emit_inj (t u : Term) (ht : ∀ c ∈ t.comparisons, c.IsSimple)
    (hu : ∀ c ∈ u.comparisons, c.IsSimple) (hft : fault? t.script = none) (hfu : fault? u.script = none)
    {o o' : Output} (ho : o.Before termMarks) (ho' : o'.Before termMarks)
    (h : t.script.emit o = u.script.emit o') : t = u ∧ o = o' := by
  match t, u with
  | .comparison c, .comparison d =>
    obtain ⟨hfront, hbody⟩ := Term.inFront_and_body_eq ht hu hft hfu h
    rw [Term.script] at hft hfu
    obtain ⟨rfl, hout⟩ := Comparison.body_inj (ht c (List.mem_singleton_self c))
      (hu d (List.mem_singleton_self d)) hft hfu hfront (before_atomMarks ho) (before_atomMarks ho') hbody
    exact ⟨rfl, hout⟩
  | .comparison c, .group q =>
    obtain ⟨-, hbody⟩ := Term.inFront_and_body_eq ht hu hft hfu h
    exact absurd hbody (Term.body_comparison_ne_body_group (ht c (List.mem_singleton_self c)) q o o')
  | .group p, .comparison d =>
    obtain ⟨-, hbody⟩ := Term.inFront_and_body_eq ht hu hft hfu h
    exact absurd hbody.symm (Term.body_comparison_ne_body_group (hu d (List.mem_singleton_self d)) p o' o)
  | .group p, .group q =>
    obtain ⟨hfront, hbody⟩ := Term.inFront_and_body_eq ht hu hft hfu h
    rw [Term.comparisons] at ht hu
    rw [Term.script, fault?_grouped] at hft hfu
    obtain ⟨hchain, hfault, hclose⟩ := Predicate.emit_inj p q ht hu hft hfu (before_paren o)
      (before_paren o') (Output.write_inj hbody)
    exact ⟨congrArg Term.group (Predicate.eq_of_parts hchain hfront hfault), Output.write_inj hclose⟩

theorem emit_linksScript_inj (links links' : List Link) (hl : ∀ c ∈ linksComparisons links, c.IsSimple)
    (hl' : ∀ c ∈ linksComparisons links', c.IsSimple) (hf : fault? (linksScript links) = none)
    (hf' : fault? (linksScript links') = none) {o o' : Output} (ho : o.Before [')']) (ho' : o'.Before [')'])
    (h : (linksScript links).emit o = (linksScript links').emit o') : links = links' ∧ o = o' := by
  match links, links' with
  | [], [] => exact ⟨rfl, h⟩
  | [], { connective, term } :: rest =>
    rw [linksScript, linksScript] at h
    exact absurd h (connective.ne_write ho)
  | { connective, term } :: rest, [] =>
    rw [linksScript, linksScript] at h
    exact absurd h.symm (connective.ne_write ho')
  | { connective, term } :: rest, { connective := connective', term := term' } :: rest' =>
    rw [linksComparisons, List.forall_mem_append] at hl hl'
    rw [linksScript] at hf hf'
    rw [linksScript, linksScript, emit_cons, emit_cons, emit_append, emit_append] at h
    obtain ⟨hterm, hrest⟩ := fault?_append_eq_none.mp hf
    obtain ⟨hterm', hrest'⟩ := fault?_append_eq_none.mp hf'
    obtain ⟨rfl, htail⟩ := Connective.emit_inj h
    obtain ⟨rfl, hlinks⟩ := Term.emit_inj term term' hl.1 hl'.1 hterm hterm'
      (before_emit_linksScript rest ho) (before_emit_linksScript rest' ho') htail
    obtain ⟨rfl, hout⟩ := emit_linksScript_inj rest rest' hl.2 hl'.2 hrest hrest' ho ho' hlinks
    exact ⟨rfl, hout⟩

theorem Chain.emit_inj (c d : Chain) (hc : ∀ x ∈ c.comparisons, x.IsSimple)
    (hd : ∀ x ∈ d.comparisons, x.IsSimple) (hfc : fault? c.script = none) (hfd : fault? d.script = none)
    {o o' : Output} (ho : o.Before [')']) (ho' : o'.Before [')'])
    (h : c.script.emit o = d.script.emit o') : c = d ∧ o = o' := by
  match c, d with
  | { first, rest }, { first := first', rest := rest' } =>
    rw [Chain.comparisons, List.forall_mem_append] at hc hd
    rw [Chain.script, fault?_append_eq_none] at hfc hfd
    rw [Chain.script, Chain.script, emit_append, emit_append] at h
    obtain ⟨rfl, hlinks⟩ := Term.emit_inj first first' hc.1 hd.1 hfc.1 hfd.1
      (before_emit_linksScript rest ho) (before_emit_linksScript rest' ho') h
    obtain ⟨rfl, hout⟩ := emit_linksScript_inj rest rest' hc.2 hd.2 hfc.2 hfd.2 ho ho' hlinks
    exact ⟨rfl, hout⟩

theorem Predicate.emit_inj (p q : Predicate) (hp : ∀ c ∈ p.comparisons, c.IsSimple)
    (hq : ∀ c ∈ q.comparisons, c.IsSimple) (hfp : fault? p.script = none) (hfq : fault? q.script = none)
    {o o' : Output} (ho : o.Before [')']) (ho' : o'.Before [')'])
    (h : p.script.emit o = q.script.emit o') : p.chain = q.chain ∧ p.fault = q.fault ∧ o = o' := by
  match p, q with
  | { chain := some c, negated, fault := none }, { chain := some d, negated := negated', fault := none } =>
    rw [Predicate.comparisons, chainComparisons] at hp hq
    rw [Predicate.script, chainScript] at hfp hfq h
    obtain ⟨rfl, hout⟩ := Chain.emit_inj c d hp hq hfp hfq ho ho' h
    exact ⟨rfl, rfl, hout⟩
  | { chain := none, negated, fault := none }, _ => cases hfp
  | _, { chain := none, negated, fault := none } => cases hfq
  | { chain, negated, fault := some f }, _ => cases hfp
  | _, { chain, negated, fault := some f } => cases hfq

end

/-! ## Renderings -/

/-- **A rendered predicate determines its terms.** Take two predicates over fields that are words, with
    operands that are NULL, parameters, or integers and texts that are written out. If both can be rendered,
    to the same text and the same parameters, then they are equal up to their own negation, which is for the
    place to write where the predicate stands. -/
theorem Predicate.eq_of_renderAfter {p q : Predicate} (hp : ∀ c ∈ p.comparisons, c.IsSimple)
    (hq : ∀ c ∈ q.comparisons, c.IsSimple) {earlier : List BoundParam} {sql : String}
    (hpsql : ((Part.predicate p).renderAfter earlier).outcome = .ok sql)
    (hqsql : ((Part.predicate q).renderAfter earlier).outcome = .ok sql)
    (hparams : ((Part.predicate p).renderAfter earlier).params =
      ((Part.predicate q).renderAfter earlier).params) :
    { p with negated := q.negated } = q := by
  rw [Part.renderAfter, renderAfter_eq] at hpsql hqsql
  rw [Part.renderAfter, Part.renderAfter, renderAfter_eq, renderAfter_eq] at hparams
  obtain ⟨hfp, htext⟩ : fault? p.script = none ∧ text p.script = sql := render_eq_ok_iff.mp hpsql
  obtain ⟨hfq, htext'⟩ : fault? q.script = none ∧ text q.script = sql := render_eq_ok_iff.mp hqsql
  have hbindings : bindings p.script = bindings q.script := List.append_cancel_left hparams
  have hemit : p.script.emit ⟨[], []⟩ = q.script.emit ⟨[], []⟩ := by
    rw [emit_of_fault?_eq_none hfp, emit_of_fault?_eq_none hfq]
    exact congrArg₂ Output.mk (congrArg String.toList (htext.trans htext'.symm)) hbindings
  have hend : Output.Before [')'] ⟨[], []⟩ := fun c hc => nomatch hc
  obtain ⟨hchain, hfault, -⟩ := Predicate.emit_inj p q hp hq hfp hfq hend hend hemit
  exact Predicate.eq_of_parts hchain rfl hfault

/-- A choice of orders by day and, in a group that is negated in one of two ways, by note and kind. -/
def Predicate.dueOrders (inGroup negated : Bool) : Predicate :=
  let notes : List Predicate.Step :=
    [.add .first (.comparison "o.note" "LIKE" (.inlined (.text "late\x27 AND (")) false),
      .add (.joined .or) (.comparison "kind" "IN" (.inlinedList [.int 1, .text ")"]) false)]
  let group : Predicate := .ofSteps (notes ++ if inGroup then [.negate] else [])
  .ofSteps ([.add .first (.comparison "day" "BETWEEN" (.bound ⟨.list [.int 1, .int 7], .integer⟩) true),
    .add (.joined .and) (.group group !inGroup)] ++ if negated then [.negate] else [])

/-- Both ways lead to the same group. -/
theorem Predicate.eq_of_renderAfter_dueOrders :
    (((∀ c ∈ (dueOrders true true).comparisons, c.IsSimple) ∧
        ∀ c ∈ (dueOrders false false).comparisons, c.IsSimple) ∧
      ((Part.predicate (dueOrders true true)).renderAfter []).outcome =
        ((Part.predicate (dueOrders false false)).renderAfter []).outcome ∧
      ((Part.predicate (dueOrders true true)).renderAfter []).params =
        ((Part.predicate (dueOrders false false)).renderAfter []).params) ∧
      { dueOrders true true with negated := (dueOrders false false).negated } = dueOrders false false := by
  have hp : ∀ c ∈ (dueOrders true true).comparisons, c.IsSimple := by decide +kernel
  have hq : ∀ c ∈ (dueOrders false false).comparisons, c.IsSimple := by decide +kernel
  exact ⟨⟨⟨hp, hq⟩, rfl, rfl⟩, @eq_of_renderAfter _ _ hp hq [] _ rfl rfl rfl⟩

end BoundSql
