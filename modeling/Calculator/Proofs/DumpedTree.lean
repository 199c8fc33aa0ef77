import Calculator.Proofs.FirstUnbound
import Calculator.Proofs.JsonText
import Calculator.Proofs.Reprint
import Calculator.Tree.Dump

/-! Dumped trees can be told apart. The document of a node has no field for its sort, but the names
of its fields tell the five sorts apart, and the numbers of a source are written so that they are
read back; only infinity is null. -/

set_option autoImplicit false

namespace Calculator

section Numbers
variable {n m : Nat}

theorem ofBits_ne {x : Float} (hn : n ≤ infinityBits) (hx : infinityBits < x.toBits.toNat) :
    Float.ofBits n.toUInt64 ≠ x := by
  rintro rfl
  rcases Nat.lt_or_eq_of_le hn with hlt | rfl
  · rw [toBits_ofBits hlt] at hx
    omega
  · exact absurd hx (by decide +kernel)

theorem ofBits_ne_nan (hn : n ≤ infinityBits) : Float.ofBits n.toUInt64 ≠ Float.nan :=
  ofBits_ne hn (by decide +kernel)

theorem ofBits_ne_neg_zero (hn : n ≤ infinityBits) : Float.ofBits n.toUInt64 ≠ -0 :=
  ofBits_ne hn (by decide +kernel)

/-- Without errors and negative zeros, numbers have the same value only if they are the same. -/
theorem ofBits_beq_iff (hn : n ≤ infinityBits) (hm : m ≤ infinityBits) :
    (Float.ofBits n.toUInt64 == Float.ofBits m.toUInt64) = true ↔
      Float.ofBits n.toUInt64 = Float.ofBits m.toUInt64 := by
  rw [Float.beq_iff_ne_nan_and_eq]
  constructor
  · rintro ⟨-, -, h | ⟨-, h⟩ | ⟨h, -⟩⟩
    · exact h
    · exact absurd h (ofBits_ne_neg_zero hm)
    · exact absurd h (ofBits_ne_neg_zero hn)
  · intro h
    exact ⟨ofBits_ne_nan hn, ofBits_ne_nan hm, Or.inl h⟩

theorem dumped_cases (hn : n ≤ infinityBits) :
    (NumberLiteral (Layout.dumped.write (Float.ofBits n.toUInt64)) ∧
      Numeral.read? (Layout.dumped.write (Float.ofBits n.toUInt64)) =
        some (Float.ofBits n.toUInt64)) ∨
    (n = infinityBits ∧ Layout.dumped.write (Float.ofBits n.toUInt64) = ['n', 'u', 'l', 'l']) := by
  rcases Nat.lt_or_eq_of_le hn with hlt | rfl
  · exact Or.inl (write_ofBits Layout.dumped hlt)
  · exact Or.inr ⟨rfl, by decide +kernel⟩

theorem not_numberLiteral_null : ¬ NumberLiteral ['n', 'u', 'l', 'l'] := by
  intro h
  have hn := literalChar_toNat (h.literalChar 'n' List.mem_cons_self)
  exact absurd hn.2.1 (by decide)

theorem ofBits_eq_of_dumped (hn : n ≤ infinityBits) (hm : m ≤ infinityBits)
    (h : Layout.dumped.write (Float.ofBits n.toUInt64) =
      Layout.dumped.write (Float.ofBits m.toUInt64)) :
    Float.ofBits n.toUInt64 = Float.ofBits m.toUInt64 := by
  rcases dumped_cases hn with ⟨hliteral, hread⟩ | ⟨rfl, hnull⟩
  · rcases dumped_cases hm with ⟨-, hread'⟩ | ⟨-, hnull⟩
    · rw [h] at hread
      exact Option.some.inj (hread.symm.trans hread')
    · rw [h, hnull] at hliteral
      exact absurd hliteral not_numberLiteral_null
  · rcases dumped_cases hm with ⟨hliteral, -⟩ | ⟨rfl, -⟩
    · rw [← h, hnull] at hliteral
      exact absurd hliteral not_numberLiteral_null
    · rfl

theorem isDivider_of_literalChar {c : Char} (h : LiteralChar c) : Json.isDivider c = false := by
  rcases h with h | rfl | h | h
  · have hn := (Text.isDigit_iff c).mp h
    simp only [Json.isDivider, Bool.or_eq_false_iff, beq_eq_false_iff_ne]
    refine ⟨⟨⟨⟨⟨?_, ?_⟩, ?_⟩, ?_⟩, ?_⟩, ?_⟩ <;> rintro rfl <;> exact absurd hn (by decide)
  · rfl
  · simp only [NumberState.isMark, Bool.or_eq_true, beq_iff_eq] at h
    rcases h with rfl | rfl <;> rfl
  · simp only [NumberState.isSign, Bool.or_eq_true, beq_iff_eq] at h
    rcases h with rfl | rfl <;> rfl

theorem NumberLiteral.plain {w : Text} (h : NumberLiteral w) : (Json.literal w).Plain := by
  refine .literal ?_ fun c hc => isDivider_of_literalChar (h.literalChar c hc)
  rintro rfl
  obtain ⟨whole, fraction, exponent, hw, -, -, heq⟩ := h
  exact hw.1 (List.append_eq_nil_iff.mp (List.append_eq_nil_iff.mp heq.symm).1).1

theorem plain_dumped (hn : n ≤ infinityBits) :
    (Json.literal (Layout.dumped.write (Float.ofBits n.toUInt64))).Plain := by
  rcases dumped_cases hn with ⟨hliteral, -⟩ | ⟨-, hnull⟩
  · exact hliteral.plain
  · rw [hnull]
    exact .literal (List.cons_ne_nil _ _) (by simp [Json.isDivider])

end Numbers

theorem Digits.plain {w : Text} (h : Digits w) : (Json.literal w).Plain :=
  .literal h.1 fun c hc => isDivider_of_literalChar (Or.inl (h.2 c hc))

theorem Json.plain_object_iff {fields : List (Text × Json)} :
    (Json.object fields).Plain ↔ ∀ field ∈ fields, field.2.Plain := by
  constructor
  · intro h
    cases h with
    | object h => exact h
  · exact .object

theorem Location.plain_toJson (l : Location) : l.toJson.Plain := by
  simp [toJson, Json.plain_object_iff, (digits_ofNat l.line).plain, (digits_ofNat l.column).plain]

theorem eq_of_ofNat_eq {n m : Nat} (h : Text.ofNat n = Text.ofNat m) : n = m := by
  rw [← value_ofNat n, h, value_ofNat]

theorem Location.eq_of_toJson_eq {l l' : Location} (h : l.toJson = l'.toJson) : l = l' := by
  obtain ⟨line, column⟩ := l
  obtain ⟨line', column'⟩ := l'
  simp only [toJson, Json.object.injEq, List.cons.injEq, Prod.mk.injEq, Json.literal.injEq,
    true_and, and_true] at h
  rw [eq_of_ofNat_eq h.1, eq_of_ofNat_eq h.2]

theorem Operator.eq_of_spelling_eq {op op' : Operator} (h : op ∈ known) (h' : op' ∈ known)
    (heq : op.spelling = op'.spelling) : op = op' := by
  have hall : ∀ op ∈ known, ∀ op' ∈ known, op.spelling = op'.spelling → op = op' := by decide
  exact hall op h op' h' heq

namespace Tree

/-- The trees that sources have: numbers are neither negative nor errors, operators are known. -/
inductive Legible : Tree → Prop
  | number {n : Nat} (l : Location) (h : n ≤ infinityBits) :
    Legible (.number (Float.ofBits n.toUInt64) l)
  | identifier (name : Text) (l : Location) : Legible (.identifier name l)
  | operation {op : Operator} {left right : Tree} (l : Location) (hop : op ∈ Operator.known)
    (hleft : Legible left) (hright : Legible right) : Legible (.operation op left right l)
  | assignment {right : Tree} (name : Text) (l : Location) (hright : Legible right) :
    Legible (.assignment name right l)
  | program {statements : List Tree} (l : Location) (h : ∀ t ∈ statements, Legible t) :
    Legible (.program statements l)

theorem toJsonAll_eq (ts : List Tree) : toJsonAll ts = ts.map toJson := by
  induction ts with
  | nil => rfl
  | cons t ts ih => rw [toJsonAll, ih, List.map_cons]

theorem eq_of_map_toJson_eq {ts us : List Tree}
    (h : ∀ t ∈ ts, ∀ u ∈ us, t.toJson = u.toJson → t = u)
    (heq : ts.map toJson = us.map toJson) : ts = us := by
  induction ts generalizing us with
  | nil => exact (List.map_eq_nil_iff.mp heq.symm).symm
  | cons t ts ih =>
    cases us with
    | nil => cases heq
    | cons u us =>
      obtain ⟨hfirst, hrest⟩ := List.cons.inj heq
      rw [h t List.mem_cons_self u List.mem_cons_self hfirst]
      congr 1
      apply ih _ hrest
      intro t' ht' u' hu'
      exact h t' (List.mem_cons_of_mem t ht') u' (List.mem_cons_of_mem u hu')

theorem sameAll_iff {ts us : List Tree} (h : ∀ t ∈ ts, ∀ u ∈ us, t.same u = true ↔ t = u) :
    sameAll ts us = true ↔ ts = us := by
  induction ts generalizing us with
  | nil => cases us <;> simp [sameAll]
  | cons t ts ih =>
    cases us with
    | nil => simp [sameAll]
    | cons u us =>
      have hrest : ∀ t' ∈ ts, ∀ u' ∈ us, t'.same u' = true ↔ t' = u' := by
        intro t' ht' u' hu'
        exact h t' (List.mem_cons_of_mem t ht') u' (List.mem_cons_of_mem u hu')
      rw [sameAll, Bool.and_eq_true, h t List.mem_cons_self u List.mem_cons_self, ih hrest,
        List.cons.injEq]

namespace Legible
variable {t t' : Tree}

theorem plain_toJson (h : t.Legible) : t.toJson.Plain := by
  induction h with
  | number l hn => simp [toJson, Json.plain_object_iff, plain_dumped hn, l.plain_toJson]
  | identifier name l =>
    simp [toJson, Json.plain_object_iff, Json.Plain.string name, l.plain_toJson]
  | @operation op _ _ l _ _ _ ihl ihr =>
    simp [toJson, Json.plain_object_iff, Json.Plain.string op.spelling, ihl, ihr, l.plain_toJson]
  | assignment name l _ ih =>
    simp [toJson, Json.plain_object_iff, Json.Plain.string name, ih, l.plain_toJson]
  | @program statements l _ ih =>
    have hitems : (Json.array (toJsonAll statements)).Plain := by
      apply Json.Plain.array
      rw [toJsonAll_eq, List.forall_mem_map]
      exact ih
    simp [toJson, Json.plain_object_iff, hitems, l.plain_toJson]

/-- The names of the fields tell the sorts of nodes apart. -/
theorem eq_of_toJson_eq (h : t.Legible) (h' : t'.Legible) (heq : t.toJson = t'.toJson) :
    t = t' := by
  induction h generalizing t' with
  | number l hn =>
    cases h' with
    | number l' hn' =>
      simp only [toJson, Json.object.injEq, List.cons.injEq, Prod.mk.injEq, Json.literal.injEq,
        true_and, and_true] at heq
      rw [ofBits_eq_of_dumped hn hn' heq.1, Location.eq_of_toJson_eq heq.2]
    | _ => simp [toJson] at heq
  | identifier name l =>
    cases h' with
    | identifier name' l' =>
      simp only [toJson, Json.object.injEq, List.cons.injEq, Prod.mk.injEq, Json.string.injEq,
        true_and, and_true] at heq
      rw [heq.1, Location.eq_of_toJson_eq heq.2]
    | _ => simp [toJson] at heq
  | operation l hop _ _ ihl ihr =>
    cases h' with
    | operation l' hop' hleft' hright' =>
      simp only [toJson, Json.object.injEq, List.cons.injEq, Prod.mk.injEq, Json.string.injEq,
        true_and, and_true] at heq
      obtain ⟨hspelling, hleft, hright, hplace⟩ := heq
      rw [Operator.eq_of_spelling_eq hop hop' hspelling, ihl hleft' hleft, ihr hright' hright,
        Location.eq_of_toJson_eq hplace]
    | _ => simp [toJson] at heq
  | assignment name l _ ih =>
    cases h' with
    | assignment name' l' hright' =>
      simp only [toJson, Json.object.injEq, List.cons.injEq, Prod.mk.injEq, Json.string.injEq,
        true_and, and_true] at heq
      obtain ⟨hname, hright, hplace⟩ := heq
      rw [hname, ih hright' hright, Location.eq_of_toJson_eq hplace]
    | _ => simp [toJson] at heq
  | program l _ ih =>
    cases h' with
    | program l' hall' =>
      simp only [toJson, toJsonAll_eq, Json.object.injEq, List.cons.injEq, Prod.mk.injEq,
        Json.array.injEq, true_and, and_true] at heq
      obtain ⟨hstatements, hplace⟩ := heq
      rw [eq_of_map_toJson_eq (fun t ht t' ht' => ih t ht (hall' t' ht')) hstatements,
        Location.eq_of_toJson_eq hplace]
    | _ => simp [toJson] at heq

theorem same_iff (h : t.Legible) (h' : t'.Legible) : t.same t' = true ↔ t = t' := by
  induction h generalizing t' with
  | number l hn =>
    cases h' with
    | number l' hn' =>
      rw [same, Bool.and_eq_true, ofBits_beq_iff hn hn', beq_iff_eq, number.injEq]
    | _ => exact iff_of_false Bool.false_ne_true (by simp)
  | identifier name l =>
    cases h' with
    | identifier name' l' =>
      rw [same, Bool.and_eq_true, beq_iff_eq, beq_iff_eq, identifier.injEq]
    | _ => exact iff_of_false Bool.false_ne_true (by simp)
  | operation l _ _ _ ihl ihr =>
    cases h' with
    | operation l' _ hleft' hright' =>
      rw [same, Bool.and_eq_true, Bool.and_eq_true, Bool.and_eq_true, beq_iff_eq, beq_iff_eq,
        ihl hleft', ihr hright', operation.injEq, and_assoc, and_assoc]
    | _ => exact iff_of_false Bool.false_ne_true (by simp)
  | assignment name l _ ih =>
    cases h' with
    | assignment name' l' hright' =>
      rw [same, Bool.and_eq_true, Bool.and_eq_true, beq_iff_eq, beq_iff_eq, ih hright',
        assignment.injEq, and_assoc]
    | _ => exact iff_of_false Bool.false_ne_true (by simp)
  | program l _ ih =>
    cases h' with
    | program l' hall' =>
      rw [same, Bool.and_eq_true, beq_iff_eq, program.injEq,
        sameAll_iff fun t ht t' ht' => ih t ht (hall' t' ht')]
    | _ => exact iff_of_false Bool.false_ne_true (by simp)

/-- Trees of the kind that sources have are equal exactly if they are dumped alike. -/
theorem compact_eq_iff (h : t.Legible) (h' : t'.Legible) :
    t.toJson.compact = t'.toJson.compact ↔ t = t' := by
  constructor
  · intro heq
    exact h.eq_of_toJson_eq h' (h.plain_toJson.eq_of_compact_eq h'.plain_toJson heq)
  · rintro rfl
    rfl

end Legible

end Tree

theorem Token.legible_number {t : Token} (hl : NumberLiteral t.lexeme) :
    (Tree.number t.value t.place).Legible := by
  obtain ⟨n, hn, hvalue⟩ := exists_bits_of_read? hl (Token.read?_lexeme hl)
  rw [hvalue]
  exact .number t.place hn

theorem Phrase.legible_tree {level : Level} (p : Phrase level)
    (hl : ∀ t ∈ p.tokens, t.kind.Lexeme t.lexeme) : p.tree.Legible := by
  induction p with
  | number t ht =>
    have hlexeme := hl t (List.mem_singleton_self t)
    rw [ht] at hlexeme
    exact Token.legible_number hlexeme
  | identifier t _ => exact .identifier t.lexeme t.place
  | enclosed opening inner closing _ _ ih =>
    apply ih
    intro t ht
    exact hl t (List.mem_cons_of_mem opening (List.mem_append_left [closing] ht))
  | one operand ih => exact ih hl
  | two left sign right op isSign ihl ihr =>
    apply Tree.Legible.operation
    · exact Tier.known_of_table isSign
    · apply ihl
      intro t ht
      exact hl t (List.mem_append_left _ ht)
    · apply ihr
      intro t ht
      exact hl t (List.mem_append_right _ (List.mem_cons_of_mem sign ht))

theorem Sentence.legible_tree (s : Sentence) (hl : ∀ t ∈ s.tokens, t.kind.Lexeme t.lexeme) :
    s.tree.Legible := by
  cases s with
  | assignment target equals right _ _ =>
    apply Tree.Legible.assignment
    apply right.legible_tree
    intro t ht
    exact hl t (List.mem_cons_of_mem target (List.mem_cons_of_mem equals ht))
  | comparison phrase => exact phrase.legible_tree hl

namespace Source

theorem legible_of_parse {source : Text} {tree : Tree} (h : parse source = .ok tree) :
    tree.Legible := by
  obtain ⟨ts, hscan, ⟨-, rfl⟩ | ⟨s, rfl, -, rfl⟩⟩ := exists_tokens_of_parse h
  · exact .program .origin (List.forall_mem_nil _)
  · apply Tree.Legible.program
    rw [List.forall_mem_singleton]
    exact s.legible_tree (Token.lexeme_of_scan hscan)

/-- Two sources have the same dump exactly if they have the same tree, places included. -/
theorem dump_identifies_tree (a b : Text) (t t' : Tree) (ha : parse a = .ok t)
    (hb : parse b = .ok t') :
    (t.toJson.compact = t'.toJson.compact ↔ t.same t' = true) ∧ (t.same t' = true ↔ t = t') := by
  have h := legible_of_parse ha
  have h' := legible_of_parse hb
  refine ⟨?_, h.same_iff h'⟩
  rw [h.same_iff h', h.compact_eq_iff h']

/-- Parentheses leave no trace in a dump, but a blank in front of a name does. -/
theorem dump_identifies_enclosed_sum :
    ∃ t u, parse "(x + PI)".toList = .ok t ∧ parse " x + PI".toList = .ok t ∧
      parse "x + PI".toList = .ok u ∧ t.same t = true ∧ t.toJson.compact ≠ u.toJson.compact := by
  obtain ⟨henclosed, hshifted, hplain⟩ :
      parse "(x + PI)".toList = .ok (.program [.operation .sum (.identifier ['x'] ⟨0, 1⟩)
        (.identifier ['P', 'I'] ⟨0, 5⟩) ⟨0, 3⟩] .origin) ∧
      parse " x + PI".toList = .ok (.program [.operation .sum (.identifier ['x'] ⟨0, 1⟩)
        (.identifier ['P', 'I'] ⟨0, 5⟩) ⟨0, 3⟩] .origin) ∧
      parse "x + PI".toList = .ok (.program [.operation .sum (.identifier ['x'] ⟨0, 0⟩)
        (.identifier ['P', 'I'] ⟨0, 4⟩) ⟨0, 2⟩] .origin) := by
    refine ⟨?_, ?_, ?_⟩ <;> cbv
  refine ⟨_, _, henclosed, hshifted, hplain, ?_, ?_⟩
  · exact (dump_identifies_tree _ _ _ _ henclosed hshifted).1.mp rfl
  · intro heq
    have hsame := (dump_identifies_tree _ _ _ _ henclosed hplain).1.mp heq
    exact absurd hsame (by decide)

end Source

end Calculator
