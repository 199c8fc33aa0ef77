import Calculator.Proofs.Closure
import Calculator.Proofs.Reprint

/-! Trees read in order. From left to right the nodes of a parsed tree are the tokens of the
source without its punctuation: each node stands where its token stands and says what the token
says. So the places of the nodes increase, and the source spells each of them where it stands. -/

set_option autoImplicit false

namespace Calculator

inductive Item
  | identifier (name : Text) (location : Location)
  | target (name : Text) (location : Location)
  | number (value : Float) (location : Location)
  | operator (op : Operator) (location : Location)

namespace Tree

mutual

/-- The nodes of a tree in order: an operator between its operands, a target before its value. -/
def items : Tree → List Item
  | .number value l => [.number value l]
  | .identifier name l => [.identifier name l]
  | .operation op left right l => left.items ++ .operator op l :: right.items
  | .assignment name right l => .target name l :: right.items
  | .program statements _ => itemsAll statements

def itemsAll : List Tree → List Item
  | [] => []
  | t :: rest => t.items ++ itemsAll rest

end

end Tree

/-- Tokens that leave no node: parentheses and the equals sign of an assignment. -/
def TokenKind.isPunctuation : TokenKind → Bool
  | .leftParen | .rightParen | .assign => true
  | _ => false

namespace Item

def location : Item → Location
  | .identifier _ l | .target _ l | .number _ l | .operator _ l => l

/-- The words for an item. A number may have many. -/
def SpelledBy : Item → Text → Prop
  | .identifier name _, w | .target name _, w => w = name
  | .number value _, w => Numeral.read? w = some value
  | .operator op _, w => w = op.spelling

def Fits : Item → TokenKind → Prop
  | .identifier .., kind | .target .., kind => kind = .identifier
  | .number .., kind => kind = .number
  | .operator op _, kind => ∃ tier : Tier, tier.table kind = some op

/-- An item is what a token says, where the token stands. -/
structure Reads (item : Item) (t : Token) : Prop where
  kind : item.Fits t.kind
  spelled : item.SpelledBy t.lexeme
  location? : t.location? = some item.location

end Item

/-- One place comes before another in a source. -/
def Location.Precedes (l m : Location) : Prop :=
  l.line < m.line ∨ l.line = m.line ∧ l.column < m.column

namespace Location

theorem Precedes.trans {l m k : Location} (h : l.Precedes m) (h' : m.Precedes k) :
    l.Precedes k := by
  unfold Precedes at h h' ⊢
  omega

/-- Whatever is passed leads further on. -/
theorem after_precedes {w : Text} (hw : w ≠ []) (passed : Text) :
    (after passed).Precedes (after (passed ++ w)) := by
  have hstep (before : Text) (c : Char) : (after before).Precedes (after (before ++ [c])) := by
    by_cases hc : c = '\n'
    · rw [hc, after_concat_newline]
      exact Or.inl (Nat.lt_succ_self _)
    · rw [after_concat hc]
      exact Or.inr ⟨rfl, Nat.lt_succ_self _⟩
  induction w using List.reverseRecOn with
  | nil => exact absurd rfl hw
  | append_singleton w c ih =>
    rw [← List.append_assoc]
    by_cases hnil : w = []
    · rw [hnil, List.append_nil]
      exact hstep passed c
    · exact (ih hnil).trans (hstep (passed ++ w) c)

end Location

theorem Token.place_of_location? {t : Token} {l : Location} (h : t.location? = some l) :
    t.place = l := by
  unfold Token.location? Location.ofInts? at h
  split at h
  · exact Option.some.inj h
  · cases h

/-- The tokens of a row stand one behind the other. -/
theorem Cut.pairwise_place {passed rest : Text} {pieces : List (Text × Token)}
    (h : Cut passed pieces rest) :
    (pieces.map Prod.snd).Pairwise fun t u => t.place.Precedes u.place := by
  induction h with
  | nil => exact .nil
  | @cons passed gap rest t pieces _ hl _ hb hcut ih =>
    rw [List.map_cons]
    refine .cons ?_ ih
    intro u hu
    obtain ⟨⟨gap', u⟩, hp, rfl⟩ := List.mem_map.mp hu
    obtain ⟨lead, more, rfl⟩ := List.append_of_mem hp
    have hbehind := hcut.middle.2
    rw [Token.place_of_location? hb.location?, Token.place_of_location? hbehind.location?,
      List.append_assoc (passed ++ gap)]
    apply Location.after_precedes
    exact List.append_ne_nil_of_left_ne_nil (Token.lexeme_ne_nil hl) _

theorem Spacing.pairwise_place {source : Text} {ts : List Token}
    (h : Token.scan source = .ok ts) : ts.Pairwise fun t u => t.place.Precedes u.place := by
  obtain ⟨pieces, last, hspacing, rfl⟩ := Spacing.exists_of_scan h
  exact hspacing.cut.pairwise_place

theorem Token.reads_operator {t : Token} {tier : Tier} {op : Operator} (hs : t.Sound)
    (hl : t.kind.Lexeme t.lexeme) (h : tier.table t.kind = some op) :
    Item.Reads (.operator op t.place) t := by
  refine ⟨⟨tier, h⟩, ?_, hs.location?⟩
  have hspelling := Tier.lexeme_of_table h
  generalize t.kind = kind at h hl hspelling
  cases Tier.sign_of_table h <;> exact Option.some.inj (hl.symm.trans hspelling)

theorem Tier.isPunctuation_of_table {tier : Tier} {kind : TokenKind} {op : Operator}
    (h : tier.table kind = some op) : kind.isPunctuation = false := by
  cases sign_of_table h <;> rfl

def shown (ts : List Token) : List Token := ts.filter fun t => !t.kind.isPunctuation

section Shown
variable {t : Token} {ts us : List Token}

theorem shown_append : shown (ts ++ us) = shown ts ++ shown us := List.filter_append ..

theorem shown_cons_of_punctuation (h : t.kind.isPunctuation = true) : shown (t :: ts) = shown ts :=
  List.filter_cons_of_neg (by simp [h])

theorem shown_cons (h : t.kind.isPunctuation = false) : shown (t :: ts) = t :: shown ts :=
  List.filter_cons_of_pos (by simp [h])

end Shown

/-- The tree of a phrase shows the tokens of the phrase in order. -/
theorem Phrase.reads_tree {level : Level} (p : Phrase level) (hs : ∀ t ∈ p.tokens, t.Sound)
    (hl : ∀ t ∈ p.tokens, t.kind.Lexeme t.lexeme) :
    List.Forall₂ Item.Reads p.tree.items (shown p.tokens) := by
  induction p with
  | number t ht =>
    rw [tokens, shown_cons (by rw [ht]; rfl)]
    have hsound := hs t (List.mem_singleton_self t)
    exact .cons ⟨ht, hsound.read? ht, hsound.location?⟩ .nil
  | identifier t ht =>
    rw [tokens, shown_cons (by rw [ht]; rfl)]
    exact .cons ⟨ht, rfl, (hs t (List.mem_singleton_self t)).location?⟩ .nil
  | enclosed opening inner closing ho hc ih =>
    have hmem (t : Token) (ht : t ∈ inner.tokens) : t ∈ opening :: (inner.tokens ++ [closing]) :=
      List.mem_cons_of_mem opening (List.mem_append_left [closing] ht)
    have hclosing : shown [closing] = [] := shown_cons_of_punctuation (by rw [hc]; rfl)
    rw [tokens, shown_cons_of_punctuation (by rw [ho]; rfl), shown_append, hclosing,
      List.append_nil]
    apply ih
    · intro t ht
      exact hs t (hmem t ht)
    · intro t ht
      exact hl t (hmem t ht)
  | one operand ih => exact ih hs hl
  | two left sign right op isSign ihl ihr =>
    obtain ⟨hsl, hss, hsr⟩ : (∀ t ∈ left.tokens, t.Sound) ∧ sign.Sound ∧
        ∀ t ∈ right.tokens, t.Sound := by
      simpa only [tokens, List.forall_mem_append, List.forall_mem_cons] using hs
    obtain ⟨hll, hls, hlr⟩ : (∀ t ∈ left.tokens, t.kind.Lexeme t.lexeme) ∧
        sign.kind.Lexeme sign.lexeme ∧ ∀ t ∈ right.tokens, t.kind.Lexeme t.lexeme := by
      simpa only [tokens, List.forall_mem_append, List.forall_mem_cons] using hl
    rw [tokens, shown_append, shown_cons (Tier.isPunctuation_of_table isSign)]
    apply List.rel_append (ihl hsl hll)
    exact .cons (Token.reads_operator hss hls isSign) (ihr hsr hlr)

theorem Sentence.reads_tree (s : Sentence) (hs : ∀ t ∈ s.tokens, t.Sound)
    (hl : ∀ t ∈ s.tokens, t.kind.Lexeme t.lexeme) :
    List.Forall₂ Item.Reads s.tree.items (shown s.tokens) := by
  cases s with
  | assignment target equals right ht he =>
    obtain ⟨hst, -, hsr⟩ : target.Sound ∧ equals.Sound ∧ ∀ t ∈ right.tokens, t.Sound := by
      simpa only [tokens, List.forall_mem_cons] using hs
    obtain ⟨-, -, hlr⟩ : target.kind.Lexeme target.lexeme ∧ equals.kind.Lexeme equals.lexeme ∧
        ∀ t ∈ right.tokens, t.kind.Lexeme t.lexeme := by
      simpa only [tokens, List.forall_mem_cons] using hl
    rw [tokens, shown_cons (by rw [ht]; rfl), shown_cons_of_punctuation (by rw [he]; rfl)]
    exact .cons ⟨ht, rfl, hst.location?⟩ (right.reads_tree hsr hlr)
  | comparison phrase => exact phrase.reads_tree hs hl

section Places
variable {items : List Item} {ts : List Token}

theorem map_location_of_reads (h : List.Forall₂ Item.Reads items ts) :
    items.map Item.location = ts.map Token.place := by
  induction h with
  | nil => rfl
  | cons hitem _ ih =>
    rw [List.map_cons, List.map_cons, ih, Token.place_of_location? hitem.location?]

theorem exists_token_of_reads (h : List.Forall₂ Item.Reads items ts) :
    ∀ item ∈ items, ∃ t ∈ ts, item.Reads t := by
  induction h with
  | nil => exact List.forall_mem_nil _
  | @cons item t items ts hitem _ ih =>
    refine List.forall_mem_cons.mpr ⟨⟨t, List.mem_cons_self, hitem⟩, ?_⟩
    intro other hother
    obtain ⟨u, hu, hreads⟩ := ih other hother
    exact ⟨u, List.mem_cons_of_mem t hu, hreads⟩

end Places

namespace Source

theorem exists_reads_of_parse {source : Text} {tree : Tree} (h : parse source = .ok tree) :
    ∃ ts, Token.scan source = .ok ts ∧ List.Forall₂ Item.Reads tree.items (shown ts) := by
  obtain ⟨ts, hscan, ⟨rfl, rfl⟩ | ⟨s, rfl, -, rfl⟩⟩ := exists_tokens_of_parse h
  · exact ⟨[], hscan, .nil⟩
  · have hreads := s.reads_tree (Token.sound_of_scan hscan) (Token.lexeme_of_scan hscan)
    refine ⟨s.tokens, hscan, ?_⟩
    rw [Tree.items, Tree.itemsAll, Tree.itemsAll, List.append_nil]
    exact hreads

/-- In order, the nodes of a parsed tree are the tokens of its source without the punctuation.
Their places increase, and the source spells each of them at its place. -/
theorem items_in_source_order (source : Text) (tree : Tree) (h : parse source = .ok tree) :
    ∃ ts, Token.scan source = .ok ts ∧
      List.Forall₂ Item.Reads tree.items (ts.filter fun t => !t.kind.isPunctuation) ∧
      (tree.items.map Item.location).Pairwise Location.Precedes ∧
      ∀ item ∈ tree.items, ∃ passed word ahead, source = passed ++ (word ++ ahead) ∧
        word ≠ [] ∧ item.location = Location.after passed ∧ item.SpelledBy word := by
  obtain ⟨ts, hscan, hreads⟩ := exists_reads_of_parse h
  refine ⟨ts, hscan, hreads, ?_, ?_⟩
  · rw [map_location_of_reads hreads, List.pairwise_map]
    exact (Spacing.pairwise_place hscan).filter _
  · intro item hitem
    obtain ⟨t, ht, hread⟩ := exists_token_of_reads hreads item hitem
    obtain ⟨pieces, last, hspacing, rfl⟩ := Spacing.exists_of_scan hscan
    obtain ⟨-, passed, lead, c, ahead, hsource, hlexeme, hplace, -⟩ :=
      hspacing.places t (List.mem_of_mem_filter ht)
    refine ⟨passed, t.lexeme, ahead, ?_, ?_, ?_, hread.spelled⟩
    · rw [hsource, hlexeme, List.append_assoc, List.singleton_append]
    · rw [hlexeme]
      exact List.append_ne_nil_of_right_ne_nil _ (List.cons_ne_nil c [])
    · exact Option.some.inj (hread.location?.symm.trans hplace)

theorem items_assigned_comparison :
    ∃ tree, parse "z = (x\n + y) == PI".toList = .ok tree ∧
      tree.items = [.target ['z'] ⟨0, 0⟩, .identifier ['x'] ⟨0, 5⟩, .operator .sum ⟨1, 1⟩,
        .identifier ['y'] ⟨1, 3⟩, .operator .equal ⟨1, 6⟩, .identifier ['P', 'I'] ⟨1, 9⟩] ∧
      (tree.items.map Item.location).Pairwise Location.Precedes ∧
      ∃ ts, Token.scan "z = (x\n + y) == PI".toList = .ok ts ∧
        List.Forall₂ Item.Reads tree.items (ts.filter fun t => !t.kind.isPunctuation) := by
  have hparse : parse "z = (x\n + y) == PI".toList = .ok (.program [.assignment ['z']
      (.operation .equal (.operation .sum (.identifier ['x'] ⟨0, 5⟩) (.identifier ['y'] ⟨1, 3⟩)
        ⟨1, 1⟩) (.identifier ['P', 'I'] ⟨1, 9⟩) ⟨1, 6⟩) ⟨0, 0⟩] .origin) := by cbv
  obtain ⟨ts, hscan, hreads, hordered, -⟩ := items_in_source_order _ _ hparse
  exact ⟨_, hparse, rfl, hordered, ts, hscan, hreads⟩

end Source

end Calculator
