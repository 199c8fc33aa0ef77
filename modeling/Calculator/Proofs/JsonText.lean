import Mathlib
import Calculator.Json

/-! Compact documents can be told apart. A document whose literals hold no bracket, comma or quote
ends where its compact form says it does, whatever is written behind it, so two documents with the
same compact form are equal. -/

set_option autoImplicit false

namespace Calculator

namespace Json

section Strings

/-- The first character of what is left of a string, and the rest. A quote ends the string. -/
def unescape? : Text → Option (Char × Text)
  | '\\' :: 'u' :: rest =>
    ((List.range 0x20).find? fun n => Text.hex 4 n == rest.take 4).map fun n =>
      (Char.ofNat n, rest.drop 4)
  | '\\' :: 'n' :: rest => some ('\n', rest)
  | '\\' :: 'r' :: rest => some ('\r', rest)
  | '\\' :: 't' :: rest => some ('\t', rest)
  | '\\' :: 'b' :: rest => some ('\x08', rest)
  | '\\' :: 'f' :: rest => some ('\x0c', rest)
  | '\\' :: c :: rest => some (c, rest)
  | '"' :: _ => none
  | c :: rest => some (c, rest)
  | [] => none

theorem unescape?_control {n : Nat} (h : n < 0x20) (rest : Text) :
    unescape? ('\\' :: 'u' :: Text.hex 4 n ++ rest) = some (Char.ofNat n, rest) := by
  have hlength : ∀ m < 0x20, (Text.hex 4 m).length = 4 := by decide
  have hfind : ∀ m < 0x20, (List.range 0x20).find? (fun k => Text.hex 4 k == Text.hex 4 m) =
      some m := by decide +kernel
  rw [List.cons_append, List.cons_append, unescape?, List.take_left' (hlength n h),
    List.drop_left' (hlength n h), hfind n h, Option.map_some]

theorem unescape?_escape (c : Char) (rest : Text) :
    unescape? (escape c ++ rest) = some (c, rest) := by
  unfold escape
  split
  · rename_i hc
    rw [Bool.or_eq_true, beq_iff_eq, beq_iff_eq] at hc
    rcases hc with rfl | rfl <;> rfl
  · rename_i hc
    rw [Bool.or_eq_true, beq_iff_eq, beq_iff_eq, not_or] at hc
    split_ifs with hn hr ht hb hf hcontrol
    · rw [eq_of_beq hn]
      rfl
    · rw [eq_of_beq hr]
      rfl
    · rw [eq_of_beq ht]
      rfl
    · rw [eq_of_beq hb]
      rfl
    · rw [eq_of_beq hf]
      rfl
    · rw [unescape?_control hcontrol, Char.ofNat_toNat]
    · simp [unescape?, hc.1, hc.2]

theorem escape_append_inj {c d : Char} {t u : Text} (h : escape c ++ t = escape d ++ u) :
    c = d ∧ t = u := by
  have hread := congrArg unescape? h
  rw [unescape?_escape, unescape?_escape] at hread
  exact Prod.mk.inj (Option.some.inj hread)

theorem escape_append_ne (c : Char) (t u : Text) : escape c ++ t ≠ '"' :: u := by
  intro h
  have hread := congrArg unescape? h
  rw [unescape?_escape] at hread
  cases hread

/-- A string determines its text and where it ends. -/
theorem quote_append_inj {s s' r r' : Text} (h : quote s ++ r = quote s' ++ r') :
    s = s' ∧ r = r' := by
  have hbody : s.flatMap escape ++ '"' :: r = s'.flatMap escape ++ '"' :: r' := by
    simpa [quote] using h
  clear h
  induction s generalizing s' with
  | nil =>
    cases s' with
    | nil => exact ⟨rfl, (List.cons.inj hbody).2⟩
    | cons d s' =>
      rw [List.flatMap_cons, List.append_assoc] at hbody
      exact absurd hbody.symm (escape_append_ne d _ r)
  | cons c s ih =>
    rw [List.flatMap_cons, List.append_assoc] at hbody
    cases s' with
    | nil => exact absurd hbody (escape_append_ne c _ r')
    | cons d s' =>
      rw [List.flatMap_cons, List.append_assoc] at hbody
      obtain ⟨rfl, hrest⟩ := escape_append_inj hbody
      obtain ⟨rfl, rfl⟩ := ih hrest
      exact ⟨rfl, rfl⟩

end Strings

def isDivider (c : Char) : Bool :=
  c == '"' || c == ',' || c == '[' || c == ']' || c == '\x7b' || c == '\x7d'

/-- What may follow a document: nothing, or a divider. -/
def Divided (rest : Text) : Prop := ∀ c ∈ rest.head?, isDivider c

theorem divided_nil : Divided [] := by
  intro c hc
  cases hc

theorem divided_cons {c : Char} (h : isDivider c) (rest : Text) : Divided (c :: rest) := by
  intro d hd
  obtain rfl : c = d := by simpa using hd
  exact h

section Lists
variable {α : Type} {write : α → Text} {closing : Char} {r r' : Text}

/-- Items are told apart wherever a divider follows them. -/
def Apart (write : α → Text) (a b : α) : Prop :=
  ∀ r r', Divided r → Divided r' → write a ++ r = write b ++ r' → a = b ∧ r = r'

theorem divided_rest (hclosing : isDivider closing) (xs : List α) (r : Text) :
    Divided ((xs.map write).flatMap ([','] ++ ·) ++ closing :: r) := by
  cases xs with
  | nil => exact divided_cons hclosing r
  | cons x xs => exact divided_cons rfl _

theorem rest_append_inj {xs ys : List α} (hclosing : isDivider closing) (hcomma : closing ≠ ',')
    (h : ∀ a ∈ xs, ∀ b ∈ ys, Apart write a b)
    (heq : (xs.map write).flatMap ([','] ++ ·) ++ closing :: r =
      (ys.map write).flatMap ([','] ++ ·) ++ closing :: r') : xs = ys ∧ r = r' := by
  induction xs generalizing ys with
  | nil =>
    cases ys with
    | nil => exact ⟨rfl, (List.cons.inj heq).2⟩
    | cons y ys => exact absurd (List.cons.inj heq).1 hcomma
  | cons x xs ih =>
    cases ys with
    | nil => exact absurd (List.cons.inj heq).1.symm hcomma
    | cons y ys =>
      rw [List.map_cons, List.map_cons, List.flatMap_cons, List.flatMap_cons, List.append_assoc,
        List.append_assoc, List.append_assoc, List.append_assoc] at heq
      have hfirst := h x List.mem_cons_self y List.mem_cons_self
      obtain ⟨rfl, hrest⟩ := hfirst _ _ (divided_rest hclosing xs r) (divided_rest hclosing ys r')
        (List.cons.inj heq).2
      have hlater : ∀ a ∈ xs, ∀ b ∈ ys, Apart write a b := by
        intro a ha b hb
        exact h a (List.mem_cons_of_mem x ha) b (List.mem_cons_of_mem x hb)
      obtain ⟨rfl, rfl⟩ := ih hlater hrest
      exact ⟨rfl, rfl⟩

/-- Items with commas between them, up to a closing bracket that starts none of them. -/
theorem join_append_inj {xs ys : List α} (hclosing : isDivider closing) (hcomma : closing ≠ ',')
    (hstart : ∀ a t t', a ∈ xs ∨ a ∈ ys → write a ++ t ≠ closing :: t')
    (h : ∀ a ∈ xs, ∀ b ∈ ys, Apart write a b)
    (heq : Text.join [','] (xs.map write) ++ closing :: r =
      Text.join [','] (ys.map write) ++ closing :: r') : xs = ys ∧ r = r' := by
  cases xs with
  | nil =>
    cases ys with
    | nil => exact ⟨rfl, (List.cons.inj heq).2⟩
    | cons y ys =>
      rw [List.map_cons, Text.join_cons, List.append_assoc] at heq
      exact absurd heq.symm (hstart y _ r (Or.inr List.mem_cons_self))
  | cons x xs =>
    cases ys with
    | nil =>
      rw [List.map_cons, Text.join_cons, List.append_assoc] at heq
      exact absurd heq (hstart x _ r' (Or.inl List.mem_cons_self))
    | cons y ys =>
      apply rest_append_inj hclosing hcomma h
      simpa [Text.join_cons] using heq

end Lists

/-- Documents whose literals are words without dividers. -/
inductive Plain : Json → Prop
  | literal {text : Text} (hne : text ≠ []) (h : ∀ c ∈ text, isDivider c = false) :
    Plain (.literal text)
  | string (text : Text) : Plain (.string text)
  | array {items : List Json} (h : ∀ j ∈ items, Plain j) : Plain (.array items)
  | object {fields : List (Text × Json)} (h : ∀ field ∈ fields, Plain field.2) :
    Plain (.object fields)

def compactField (field : Text × Json) : Text := quote field.1 ++ ':' :: field.2.compact

theorem compactItems_eq (items : List Json) : compactItems items = items.map compact := by
  induction items with
  | nil => rfl
  | cons j items ih => rw [compactItems, ih, List.map_cons]

theorem compactFields_eq (fields : List (Text × Json)) :
    compactFields fields = fields.map compactField := by
  induction fields with
  | nil => rfl
  | cons field fields ih =>
    obtain ⟨name, j⟩ := field
    rw [compactFields, ih, List.map_cons, compactField]

/-- The divider that a document starts with. A literal has none. -/
def opening? : Json → Option Char
  | .literal _ => none
  | .string _ => some '"'
  | .array _ => some '['
  | .object _ => some '\x7b'

theorem Plain.exists_compact {j : Json} (h : j.Plain) :
    ∃ c rest, j.compact = c :: rest ∧ j.opening? = if isDivider c then some c else none := by
  cases h with
  | literal hne h =>
    obtain ⟨c, rest, rfl⟩ := List.exists_cons_of_ne_nil hne
    exact ⟨c, rest, by rw [compact], by rw [h c List.mem_cons_self]; rfl⟩
  | string text => exact ⟨'"', _, by rw [compact, quote]; rfl, rfl⟩
  | array _ => exact ⟨'[', _, by rw [compact]; rfl, rfl⟩
  | object _ => exact ⟨'\x7b', _, by rw [compact]; rfl, rfl⟩

theorem Plain.opening?_eq {j j' : Json} {r r' : Text} (h : j.Plain) (h' : j'.Plain)
    (heq : j.compact ++ r = j'.compact ++ r') : j.opening? = j'.opening? := by
  obtain ⟨c, rest, hc, ho⟩ := h.exists_compact
  obtain ⟨c', rest', hc', ho'⟩ := h'.exists_compact
  rw [hc, hc'] at heq
  rw [ho, ho', (List.cons.inj heq).1]

theorem Plain.compact_append_ne_bracket {j : Json} (h : j.Plain) (t t' : Text) :
    j.compact ++ t ≠ ']' :: t' := by
  intro heq
  obtain ⟨c, rest, hc, ho⟩ := h.exists_compact
  rw [hc] at heq
  rw [(List.cons.inj heq).1] at ho
  cases h <;> cases ho

theorem apart_field {field field' : Text × Json} (h : Apart compact field.2 field'.2) :
    Apart compactField field field' := by
  intro r r' hr hr' heq
  rw [compactField, compactField, List.append_assoc, List.append_assoc] at heq
  obtain ⟨hname, hvalue⟩ := quote_append_inj heq
  obtain ⟨hj, hrest⟩ := h r r' hr hr' (List.cons.inj hvalue).2
  exact ⟨Prod.ext hname hj, hrest⟩

theorem literal_append_inj {text text' r r' : Text} (h : ∀ c ∈ text, isDivider c = false)
    (h' : ∀ c ∈ text', isDivider c = false) (hr : Divided r) (hr' : Divided r')
    (heq : text ++ r = text' ++ r') : text = text' ∧ r = r' := by
  obtain ⟨htake, hdrop⟩ := Text.span_append (p := fun c => !isDivider c) (by simpa using h)
    (by simpa [Divided] using hr)
  obtain ⟨htake', hdrop'⟩ := Text.span_append (p := fun c => !isDivider c) (by simpa using h')
    (by simpa [Divided] using hr')
  rw [heq] at htake hdrop
  exact ⟨htake.symm.trans htake', hdrop.symm.trans hdrop'⟩

/-- A document in compact form determines both itself and where it ends. -/
theorem Plain.apart {j : Json} (h : j.Plain) : ∀ j', j'.Plain → Apart compact j j' := by
  induction h with
  | @literal text hne htext =>
    intro j' h' r r' hr hr' heq
    have hopening := (Plain.literal hne htext).opening?_eq h' heq
    cases h' with
    | literal _ htext' =>
      rw [compact, compact] at heq
      obtain ⟨rfl, rfl⟩ := literal_append_inj htext htext' hr hr' heq
      exact ⟨rfl, rfl⟩
    | _ => cases hopening
  | string text =>
    intro j' h' r r' hr hr' heq
    have hopening := (Plain.string text).opening?_eq h' heq
    cases h' with
    | string text' =>
      rw [compact, compact] at heq
      obtain ⟨rfl, rfl⟩ := quote_append_inj heq
      exact ⟨rfl, rfl⟩
    | _ => cases hopening
  | @array items hitems ih =>
    intro j' h' r r' hr hr' heq
    have hopening := (Plain.array hitems).opening?_eq h' heq
    cases h' with
    | @array items' hitems' =>
      rw [compact, compact, compactItems_eq, compactItems_eq] at heq
      have hinner : Text.join [','] (items.map compact) ++ ']' :: r =
          Text.join [','] (items'.map compact) ++ ']' :: r' := by
        simpa using heq
      have hstart (j : Json) (t t' : Text) (hj : j ∈ items ∨ j ∈ items') :
          j.compact ++ t ≠ ']' :: t' := by
        rcases hj with hj | hj
        · exact (hitems j hj).compact_append_ne_bracket t t'
        · exact (hitems' j hj).compact_append_ne_bracket t t'
      have hapart (j : Json) (hj : j ∈ items) (j' : Json) (hj' : j' ∈ items') :
          Apart compact j j' := ih j hj j' (hitems' j' hj')
      obtain ⟨rfl, rfl⟩ := join_append_inj rfl (by decide) hstart hapart hinner
      exact ⟨rfl, rfl⟩
    | _ => cases hopening
  | @object fields hfields ih =>
    intro j' h' r r' hr hr' heq
    have hopening := (Plain.object hfields).opening?_eq h' heq
    cases h' with
    | @object fields' hfields' =>
      rw [compact, compact, compactFields_eq, compactFields_eq] at heq
      have hinner : Text.join [','] (fields.map compactField) ++ '\x7d' :: r =
          Text.join [','] (fields'.map compactField) ++ '\x7d' :: r' := by
        simpa using heq
      have hstart (field : Text × Json) (t t' : Text) (_ : field ∈ fields ∨ field ∈ fields') :
          compactField field ++ t ≠ '\x7d' :: t' := by
        simp [compactField, quote]
      have hapart : ∀ field ∈ fields, ∀ field' ∈ fields', Apart compactField field field' := by
        intro field hfield field' hfield'
        exact apart_field (ih field hfield field'.2 (hfields' field' hfield'))
      obtain ⟨rfl, rfl⟩ := join_append_inj rfl (by decide) hstart hapart hinner
      exact ⟨rfl, rfl⟩
    | _ => cases hopening

theorem Plain.eq_of_compact_eq {j j' : Json} (h : j.Plain) (h' : j'.Plain)
    (heq : j.compact = j'.compact) : j = j' :=
  (h.apart j' h' [] [] divided_nil divided_nil (by rw [heq])).1

end Json

end Calculator
