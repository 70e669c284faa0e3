import ConvexLang.Proofs.Annotation
import ConvexLang.Proofs.Quoting
import ConvexLang.Proofs.Spelling
import Mathlib

/-!
# Records

What a front end receives of a statement is a text. The text determines the statement:
statements of any two sessions have the same text if and only if they are the same up
to parentheses.

* `Number.text_inj`: a literal is known by its name, which is its text. So the value in
  the record of a literal tells nothing that the name did not tell, and how numbers are
  written in a record does not matter.
* `Expr.IsRecorded`: what holds of every node of a statement, and what keeps the records
  of two kinds of nodes apart: a compound has slots, and a word is not empty.
* `Expr.writeCompact_record_inj`: by induction over the tree, a record ends where it
  ends, and the tree is known from it up to parentheses. `Expr.record_eq_of_same` is the
  other direction.
* `Session.compact_record_eq_iff_run`: the statements of two sessions.
-/

namespace ConvexLang

/-! ## Literals -/

namespace Number

/-- The number is one that a text can hold. -/
def IsWritten : Number → Prop
  | whole n => ∃ m : Nat, n = m ∧ (TokenKind.integer m).IsWritten
  | real x => (TokenKind.real x).IsWritten

/-- Numbers of texts are the same if they are equal. -/
theorem same_iff {v w : Number} (hv : v.IsWritten) (hw : w.IsWritten) :
    v.same w = true ↔ v = w := by
  cases v with
  | whole m =>
    cases w with
    | whole n => simp [same]
    | real y => simp [same]
  | real x =>
    cases w with
    | whole n => simp [same]
    | real y =>
      obtain ⟨d, rfl⟩ := hv
      obtain ⟨e, rfl⟩ := hw
      rw [real.injEq]
      exact Binary64.beq_iff_of_unsigned (Binary64.unsigned_toFloat d) (Binary64.unsigned_toFloat e)

/-- The kind that the text of a number is read as: an infinite one is read as a name. -/
def textKind : Number → TokenKind
  | whole n => .integer n.toNat
  | real x => if x.isInf then .identifier "inf" else .real x

theorem eq_infinity_of_isInf {x : Float} (hx : (TokenKind.real x).IsWritten)
    (hinf : x.isInf = true) : x = .ofModel (.pack (.infinity .positive)) := by
  obtain ⟨d, rfl⟩ := hx
  have hu := Binary64.unsigned_toFloat d
  change d.toFloat.toModel.unpack.isInf = true at hinf
  refine Binary64.eq_ofModel_pack ?_
  cases hv : d.toFloat.toModel.unpack with
  | infinity sign =>
    rw [hv] at hu
    cases hu
    rfl
  | _ =>
    rw [hv] at hinf
    cases hinf

theorem plainText_of_isInf {x : Float} (hx : (TokenKind.real x).IsWritten)
    (hinf : x.isInf = true) : Decimal.plainText x = ['i', 'n', 'f'] := by
  obtain ⟨d, rfl⟩ := hx
  have hu := Binary64.unsigned_toFloat d
  have hnan : d.toFloat.isNaN = false := hu.isNaN
  simp only [Decimal.plainText, hnan, hinf, Binary64.isNegative_of_unsigned hu, Decimal.signText,
    Bool.false_eq_true, if_false, if_true, List.nil_append]

/-- The text of a number is read as one kind. -/
theorem kinds?_text {v : Number} (hv : v.IsWritten) : kinds? v.text.toList = some [v.textKind] := by
  cases v with
  | whole n =>
    obtain ⟨m, rfl, hm⟩ := hv
    change kinds? (String.ofList (Decimal.digits m)).toList = _
    rw [String.toList_ofList]
    exact (spells_digits hm).kinds?
  | real x =>
    rw [text, textKind, String.toList_ofList]
    split
    · rename_i hinf
      rw [plainText_of_isInf hv hinf]
      have hname : (TokenKind.identifier "inf").IsWritten := ⟨by decide, by decide⟩
      exact (spells_identifier hname).kinds?
    · rename_i hfin
      exact (spells_plainText hv (Bool.eq_false_iff.2 hfin)).kinds?

/-- A number is known by its text. -/
theorem text_inj {v w : Number} (hv : v.IsWritten) (hw : w.IsWritten) (h : v.text = w.text) :
    v = w := by
  have hkinds := kinds?_text hv
  rw [h, kinds?_text hw, Option.some.injEq, List.cons.injEq] at hkinds
  have hkind : w.textKind = v.textKind := hkinds.1
  cases v with
  | whole m =>
    cases w with
    | whole n =>
      obtain ⟨m, rfl, -⟩ := hv
      obtain ⟨n, rfl, -⟩ := hw
      cases hkind
      rfl
    | real y =>
      rw [textKind, textKind] at hkind
      split at hkind <;> cases hkind
  | real x =>
    cases w with
    | whole n =>
      rw [textKind, textKind] at hkind
      split at hkind <;> cases hkind
    | real y =>
      rw [textKind, textKind] at hkind
      split at hkind
      · rename_i hy
        split at hkind
        · rename_i hx
          rw [eq_infinity_of_isInf hv hx, eq_infinity_of_isInf hw hy]
        · cases hkind
      · split at hkind
        · cases hkind
        · cases hkind
          rfl

end Number

/-! ## Words of a record -/

theorem Sign.label_inj {s t : Sign} (h : s.label = t.label) : s = t := by
  revert h
  cases s <;> cases t <;> decide

theorem Curvature.label_inj {c d : Curvature} (h : c.label = d.label) : c = d := by
  revert h
  cases c <;> cases d <;> decide

theorem Role.curvature_inj {r s : Role} (h : r.curvature = s.curvature) : r = s := by
  revert h
  cases r <;> cases s <;> decide

theorem Relation.symbol_inj {r s : Relation} (h : r.symbol = s.symbol) : r = s := by
  revert h
  cases r <;> cases s <;> decide

/-! ## Texts of records -/

namespace Json

/-- The items of a list behind its first one, each with its comma. -/
def writeMore : List Json → List Char → List Char
  | [], rest => rest
  | v :: vs, rest => ',' :: writeItems (v :: vs) rest

theorem writeItems_cons (v : Json) (vs : List Json) (rest : List Char) :
    writeItems (v :: vs) rest = v.writeCompact (writeMore vs rest) := by
  cases vs <;> rfl

/-- What closes the record of a node, behind its slots. -/
def closing : Option Number → List Char → List Char
  | none, rest => '}' :: rest
  | some v, rest => ',' :: (quote "value" ++ ':' :: (numberText v ++ '}' :: rest))

theorem writeCompact_recordFields (name : String) (sign : Sign) (curvature : Curvature)
    (operands : List Json) (value : Option Number) (rest : List Char) :
    (Expr.recordFields name sign curvature operands value).writeCompact rest =
      '{' :: (quote "name" ++ ':' :: (quote name ++ ',' :: (quote "short_name" ++ ':' ::
        (quote name ++ ',' :: (quote "sign" ++ ':' :: (quote sign.label ++ ',' ::
          (quote "curvature" ++ ':' :: (quote curvature.label ++ ',' ::
            (quote "subexpressions" ++ ':' :: '[' ::
              writeItems operands (']' :: closing value rest)))))))))) := by
  cases value <;> simp [Expr.recordFields, writeCompact, writeEntries, closing]

/-- A text under a key is known, and ends at the comma behind it. -/
theorem field_append_inj {key s t : String} {r r' : List Char}
    (h : quote key ++ ':' :: (quote s ++ ',' :: r) = quote key ++ ':' :: (quote t ++ ',' :: r')) :
    s = t ∧ r = r' := by
  obtain ⟨-, h⟩ := quote_append_inj h
  obtain ⟨hst, h⟩ := quote_append_inj (List.cons.inj h).2
  exact ⟨hst, (List.cons.inj h).2⟩

/-- The text of a record tells the name, the sign and the curvature, and then goes on. -/
theorem writeCompact_recordFields_inj {name name' : String} {sign sign' : Sign}
    {curvature curvature' : Curvature} {operands operands' : List Json}
    {value value' : Option Number} {rest rest' : List Char}
    (h : (Expr.recordFields name sign curvature operands value).writeCompact rest =
      (Expr.recordFields name' sign' curvature' operands' value').writeCompact rest') :
    name = name' ∧ sign = sign' ∧ curvature = curvature' ∧
      writeItems operands (']' :: closing value rest) =
        writeItems operands' (']' :: closing value' rest') := by
  rw [writeCompact_recordFields, writeCompact_recordFields] at h
  obtain ⟨hname, h⟩ := field_append_inj (List.cons.inj h).2
  obtain ⟨-, h⟩ := field_append_inj h
  obtain ⟨hsign, h⟩ := field_append_inj h
  obtain ⟨hcurvature, h⟩ := field_append_inj h
  simp only [List.cons.injEq, true_and, List.append_cancel_left_eq] at h
  exact ⟨hname, Sign.label_inj hsign, Curvature.label_inj hcurvature, h⟩

end Json

namespace Expr

theorem record_eq (e : Expr) :
    e.record = recordFields e.name e.sign e.curvature (recordOperands e.operands) e.value? := by
  cases e <;> rfl

/-- What tells the record of a node from those of other kinds of nodes. -/
inductive IsRecorded : Expr → Prop
  | symbol {role : Role} {name : String} {sign : Sign} {parens : Bool} :
    IsRecorded (.symbol role name sign parens)
  | literal {v : Number} {parens : Bool} : v.IsWritten → IsRecorded (.literal v parens)
  | compound {name : String} {sign : Sign} {curvature : Curvature} {operands : List Operand}
    {parens : Bool} : operands ≠ [] → (∀ text, .word text ∈ operands → text ≠ "") →
      IsRecorded (.compound name sign curvature operands parens)

/-- The text of a slot closes no list. -/
theorem writeCompact_recordOperand_ne (o : Operand) (rest rest' : List Char) :
    (recordOperand o).writeCompact rest ≠ ']' :: rest' := by
  cases o with
  | expr e =>
    rw [recordOperand, record_eq, Json.writeCompact_recordFields]
    nofun
  | absent | word => nofun

theorem writeItems_recordOperands_ne {os : List Operand} (hos : os ≠ []) (rest rest' : List Char) :
    Json.writeItems (recordOperands os) rest ≠ ']' :: rest' := by
  obtain ⟨o, os, rfl⟩ := List.exists_cons_of_ne_nil hos
  rw [recordOperands, Json.writeItems_cons]
  exact writeCompact_recordOperand_ne o _ _

mutual

/-- A record ends where it ends, and the tree is known up to parentheses. -/
theorem writeCompact_record_inj {e e' : Expr} (he : ∀ a ∈ e.nodes, IsRecorded a)
    (he' : ∀ a ∈ e'.nodes, IsRecorded a) {rest rest' : List Char}
    (h : e.record.writeCompact rest = e'.record.writeCompact rest') :
    e.same e' = true ∧ rest = rest' := by
  rw [record_eq, record_eq] at h
  obtain ⟨hname, hsign, hcurvature, h⟩ := Json.writeCompact_recordFields_inj h
  match e, e' with
  | .symbol .., .symbol .. =>
    obtain rfl := Role.curvature_inj hcurvature
    cases h
    exact ⟨by simpa [same] using ⟨hname, hsign⟩, rfl⟩
  | .symbol .., .literal .. => cases h
  | .literal .., .symbol .. => cases h
  | .literal v _, .literal w _ =>
    cases he _ List.mem_cons_self with
    | literal hv =>
      cases he' _ List.mem_cons_self with
      | literal hw =>
        obtain rfl := Number.text_inj hv hw hname
        simp only [operands, recordOperands, value?, Json.writeItems, Json.closing,
          List.cons.injEq, true_and, List.append_cancel_left_eq] at h
        exact ⟨(Number.same_iff hv hv).2 rfl, h⟩
  | .symbol .., .compound .. | .literal .., .compound .. =>
    cases he' _ List.mem_cons_self with
    | compound hos => exact absurd h.symm (writeItems_recordOperands_ne hos _ _)
  | .compound .., .symbol .. | .compound .., .literal .. =>
    cases he _ List.mem_cons_self with
    | compound hos => exact absurd h (writeItems_recordOperands_ne hos _ _)
  | .compound _ _ _ os _, .compound _ _ _ os' _ =>
    cases he _ List.mem_cons_self with
    | compound _ hwords =>
      cases he' _ List.mem_cons_self with
      | compound _ hwords' =>
        obtain ⟨hos, hrest⟩ := writeItems_recordOperands_inj
          (fun a ha => he a (List.mem_cons_of_mem _ ha))
          (fun a ha => he' a (List.mem_cons_of_mem _ ha)) hwords hwords' h
        exact ⟨by simpa [same] using ⟨⟨⟨hname, hsign⟩, hcurvature⟩, hos⟩,
          (List.cons.inj hrest).2⟩

theorem writeCompact_recordOperand_inj {o o' : Operand}
    (ho : ∀ a ∈ nodesOperand o, IsRecorded a) (ho' : ∀ a ∈ nodesOperand o', IsRecorded a)
    (hword : ∀ text, o = .word text → text ≠ "") (hword' : ∀ text, o' = .word text → text ≠ "")
    {rest rest' : List Char}
    (h : (recordOperand o).writeCompact rest = (recordOperand o').writeCompact rest') :
    sameOperand o o' = true ∧ rest = rest' := by
  match o, o' with
  | .expr e, .expr e' => exact writeCompact_record_inj ho ho' h
  | .absent, .absent => exact ⟨rfl, (Json.quote_append_inj h).2⟩
  | .word t, .word t' =>
    obtain ⟨rfl, hrest⟩ := Json.quote_append_inj h
    exact ⟨decide_eq_true rfl, hrest⟩
  | .absent, .word t => exact absurd (Json.quote_append_inj h).1.symm (hword' t rfl)
  | .word t, .absent => exact absurd (Json.quote_append_inj h).1 (hword t rfl)
  | .expr e, .absent | .expr e, .word _ =>
    rw [recordOperand, record_eq, Json.writeCompact_recordFields] at h
    cases h
  | .absent, .expr e | .word _, .expr e =>
    rw [recordOperand, recordOperand, record_eq, Json.writeCompact_recordFields] at h
    cases h

theorem writeItems_recordOperands_inj {os os' : List Operand}
    (hos : ∀ a ∈ nodesOperands os, IsRecorded a) (hos' : ∀ a ∈ nodesOperands os', IsRecorded a)
    (hwords : ∀ text, .word text ∈ os → text ≠ "")
    (hwords' : ∀ text, .word text ∈ os' → text ≠ "") {rest rest' : List Char}
    (h : Json.writeItems (recordOperands os) (']' :: rest) =
      Json.writeItems (recordOperands os') (']' :: rest')) :
    sameOperands os os' = true ∧ rest = rest' := by
  match os, os' with
  | [], [] => exact ⟨rfl, (List.cons.inj h).2⟩
  | [], o :: os => exact absurd h.symm (writeItems_recordOperands_ne (List.cons_ne_nil o os) _ _)
  | o :: os, [] => exact absurd h (writeItems_recordOperands_ne (List.cons_ne_nil o os) _ _)
  | o :: os, o' :: os' =>
    rw [recordOperands, recordOperands, Json.writeItems_cons, Json.writeItems_cons] at h
    obtain ⟨hsame, hmore⟩ := writeCompact_recordOperand_inj
      (fun a ha => hos a (List.mem_append_left _ ha))
      (fun a ha => hos' a (List.mem_append_left _ ha))
      (fun text ht => hwords text (ht ▸ List.mem_cons_self))
      (fun text ht => hwords' text (ht ▸ List.mem_cons_self)) h
    match os, os' with
    | [], [] =>
      cases hmore
      exact ⟨by rw [sameOperands, hsame]; rfl, rfl⟩
    | [], _ :: _ => cases hmore
    | _ :: _, [] => cases hmore
    | p :: ps, p' :: ps' =>
      have hrest := writeItems_recordOperands_inj
        (fun a ha => hos a (List.mem_append_right _ ha))
        (fun a ha => hos' a (List.mem_append_right _ ha))
        (fun text ht => hwords text (List.mem_cons_of_mem _ ht))
        (fun text ht => hwords' text (List.mem_cons_of_mem _ ht)) (List.cons.inj hmore).2
      exact ⟨by rw [sameOperands, hsame, hrest.1]; rfl, hrest.2⟩

end

mutual

/-- Trees that are the same up to parentheses have the same record. -/
theorem record_eq_of_same {e e' : Expr} (he : ∀ a ∈ e.nodes, IsRecorded a)
    (he' : ∀ a ∈ e'.nodes, IsRecorded a) (h : e.same e' = true) : e.record = e'.record := by
  match e, e' with
  | .symbol .., .symbol .. =>
    simp only [same, Bool.and_eq_true, decide_eq_true_eq] at h
    obtain ⟨⟨rfl, rfl⟩, rfl⟩ := h
    rfl
  | .literal v _, .literal w _ =>
    cases he _ List.mem_cons_self with
    | literal hv =>
      cases he' _ List.mem_cons_self with
      | literal hw =>
        obtain rfl := (Number.same_iff hv hw).1 h
        rfl
  | .compound _ _ _ os _, .compound _ _ _ os' _ =>
    simp only [same, Bool.and_eq_true, decide_eq_true_eq] at h
    obtain ⟨⟨⟨rfl, rfl⟩, rfl⟩, hos⟩ := h
    rw [record, record, recordOperands_eq_of_same (fun a ha => he a (List.mem_cons_of_mem _ ha))
      (fun a ha => he' a (List.mem_cons_of_mem _ ha)) hos]
  | .symbol .., .literal .. | .symbol .., .compound .. | .literal .., .symbol ..
  | .literal .., .compound .. | .compound .., .symbol .. | .compound .., .literal .. => cases h

theorem recordOperand_eq_of_same {o o' : Operand} (ho : ∀ a ∈ nodesOperand o, IsRecorded a)
    (ho' : ∀ a ∈ nodesOperand o', IsRecorded a) (h : sameOperand o o' = true) :
    recordOperand o = recordOperand o' := by
  match o, o' with
  | .expr e, .expr e' => exact record_eq_of_same ho ho' h
  | .absent, .absent => rfl
  | .word t, .word t' =>
    obtain rfl := of_decide_eq_true h
    rfl
  | .expr _, .absent | .expr _, .word _ | .absent, .expr _ | .absent, .word _
  | .word _, .expr _ | .word _, .absent => cases h

theorem recordOperands_eq_of_same {os os' : List Operand}
    (hos : ∀ a ∈ nodesOperands os, IsRecorded a) (hos' : ∀ a ∈ nodesOperands os', IsRecorded a)
    (h : sameOperands os os' = true) : recordOperands os = recordOperands os' := by
  match os, os' with
  | [], [] => rfl
  | o :: os, o' :: os' =>
    rw [sameOperands, Bool.and_eq_true] at h
    rw [recordOperands, recordOperands,
      recordOperand_eq_of_same (fun a ha => hos a (List.mem_append_left _ ha))
        (fun a ha => hos' a (List.mem_append_left _ ha)) h.1,
      recordOperands_eq_of_same (fun a ha => hos a (List.mem_append_right _ ha))
        (fun a ha => hos' a (List.mem_append_right _ ha)) h.2]
  | [], _ :: _ | _ :: _, [] => cases h

end

end Expr

/-! ## Statements -/

namespace Statement

theorem writeCompact_record_constraint (r : Relation) (a b : Expr) :
    (constraint r a b).record.writeCompact [] =
      '{' :: (Json.quote "name" ++ ':' :: (Json.quote r.symbol ++ ',' ::
        (Json.quote "short_name" ++ ':' :: (Json.quote r.symbol ++ ',' ::
          (Json.quote "lhs" ++ ':' :: a.record.writeCompact (',' ::
            (Json.quote "rhs" ++ ':' :: b.record.writeCompact ['}']))))))) := by
  simp [record, Json.writeCompact, Json.writeEntries]

/-- An expression has a sign where a constraint has a left side. -/
theorem writeCompact_record_ne (e : Expr) (r : Relation) (a b : Expr) :
    (expr e).record.writeCompact [] ≠ (constraint r a b).record.writeCompact [] := by
  intro h
  rw [record, Expr.record_eq, Json.writeCompact_recordFields, writeCompact_record_constraint] at h
  obtain ⟨-, h⟩ := Json.field_append_inj (List.cons.inj h).2
  obtain ⟨-, h⟩ := Json.field_append_inj h
  exact absurd (Json.quote_append_inj h).1 (by decide)

/-- The text of a record determines the statement up to parentheses, and the other way
    round. -/
theorem compact_record_eq_iff {s t : Statement} (hs : ∀ a ∈ s.nodes, Expr.IsRecorded a)
    (ht : ∀ a ∈ t.nodes, Expr.IsRecorded a) :
    s.record.compact = t.record.compact ↔ s.same t = true := by
  rw [Json.compact, Json.compact, String.ofList_inj]
  match s, t with
  | expr e, expr e' =>
    refine ⟨fun h => (Expr.writeCompact_record_inj hs ht h).1, fun h => ?_⟩
    rw [record, record, Expr.record_eq_of_same hs ht h]
  | constraint r a b, constraint r' a' b' =>
    have ha (c) (hc : c ∈ a.nodes) := hs c (List.mem_append_left _ hc)
    have hb (c) (hc : c ∈ b.nodes) := hs c (List.mem_append_right _ hc)
    have ha' (c) (hc : c ∈ a'.nodes) := ht c (List.mem_append_left _ hc)
    have hb' (c) (hc : c ∈ b'.nodes) := ht c (List.mem_append_right _ hc)
    constructor
    · intro h
      rw [writeCompact_record_constraint, writeCompact_record_constraint] at h
      obtain ⟨hr, h⟩ := Json.field_append_inj (List.cons.inj h).2
      obtain ⟨-, h⟩ := Json.field_append_inj h
      obtain rfl := Relation.symbol_inj hr
      simp only [List.cons.injEq, true_and, List.append_cancel_left_eq] at h
      obtain ⟨hleft, h⟩ := Expr.writeCompact_record_inj ha ha' h
      simp only [List.cons.injEq, true_and, List.append_cancel_left_eq] at h
      obtain ⟨hright, -⟩ := Expr.writeCompact_record_inj hb hb' h
      simp [same, hleft, hright]
    · intro h
      simp only [same, Bool.and_eq_true, decide_eq_true_eq] at h
      obtain ⟨⟨rfl, hleft⟩, hright⟩ := h
      rw [record, record, Expr.record_eq_of_same ha ha' hleft,
        Expr.record_eq_of_same hb hb' hright]
  | expr e, constraint r a b =>
    exact ⟨fun h => absurd h (writeCompact_record_ne e r a b), nofun⟩
  | constraint r a b, expr e =>
    exact ⟨fun h => absurd h.symm (writeCompact_record_ne e r a b), nofun⟩

end Statement

/-! ## Sessions -/

namespace Grammar

variable {scope : Scope}

theorem holdsOfNodes_isRecorded (hs : scope.symbols.WellFormed) :
    HoldsOfNodes scope Expr.IsRecorded where
  inParens := by
    intro e he
    cases he with
    | symbol => exact .symbol
    | literal hv => exact .literal hv
    | compound hos hwords => exact .compound hos hwords
  integer hn := .literal ⟨_, rfl, hn⟩
  real hx := .literal hx
  symbol he a ha := by
    obtain ⟨-, -, role, sign, rfl⟩ := hs _ _ he
    rw [List.mem_singleton.1 ha]
    exact .symbol
  binary _ := .compound (List.cons_ne_nil _ _) (by simp)
  negation := .compound (List.cons_ne_nil _ _) (by simp)
  call d _ _ := .compound d.ne_nil fun _ ht => d.words ht ▸ by decide

end Grammar

namespace Session

/-- Whatever two new sessions are asked to do: a statement of the one and a statement of
    the other have the same record, as a text, exactly if they are the same up to
    parentheses. -/
theorem compact_record_eq_iff_run {atoms atoms' : Registry} {calls calls' : List Call}
    {s t : Statement} (hs : s ∈ (Session.run { atoms } calls).statements)
    (ht : t ∈ (Session.run { atoms := atoms' } calls').statements) :
    s.record.compact = t.record.compact ↔ s.same t = true := by
  obtain ⟨-, h⟩ := HasNodes.run (fun _ h => Grammar.holdsOfNodes_isRecorded h) rfl
    hasNodes_of_atoms calls
  obtain ⟨-, h'⟩ := HasNodes.run (fun _ h => Grammar.holdsOfNodes_isRecorded h) rfl
    hasNodes_of_atoms calls'
  exact Statement.compact_record_eq_iff (h.statements s hs) (h'.statements t ht)

/-- The same sum with parentheses in one place and in another, over two registries. -/
theorem compact_record_eq_iff_run_parens :
    let x := Expr.ofSymbol .decision "x" .unknown
    let one := Expr.ofNumber (.whole 1)
    let s := Statement.expr (.operator "+" [x.inParens, one])
    let t := Statement.expr (.operator "+" [x, one.inParens])
    s ∈ (Session.run { atoms := .standard } [.text "variable x\n(x)+1"]).statements ∧
      t ∈ (Session.run { atoms := .empty } [.line "variable x", .line "x+(1)"]).statements ∧
      s.same t = true ∧ s.record.compact = t.record.compact := by
  intro x one s t
  have hs : (Session.run { atoms := .standard } [.text "variable x\n(x)+1"]).statements = [s] := by
    cbv
  have ht : (Session.run { atoms := .empty } [.line "variable x", .line "x+(1)"]).statements =
      [t] := by
    cbv
  have hs' := hs ▸ List.mem_singleton_self s
  have ht' := ht ▸ List.mem_singleton_self t
  have hsame : s.same t = true := by decide
  exact ⟨hs', ht', hsame, (compact_record_eq_iff_run hs' ht').2 hsame⟩

end Session

end ConvexLang
