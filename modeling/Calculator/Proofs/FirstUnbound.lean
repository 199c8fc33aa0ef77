import Calculator.Proofs.Closure
import Calculator.Proofs.CutShort
import Calculator.Proofs.Relayout

/-! Names without a value. Evaluation comes to the names of a statement in a fixed order, and
every assignment that is completed defines its target for what comes later. It fails exactly if
it comes to a name that is not defined there, and it reports the first such name. In a source
that is the first identifier, the target of the assignment left out, that is not bound. -/

set_option autoImplicit false

namespace Calculator

/-- Of all items with a property that depends on what comes before them, only one is the first. -/
theorem eq_of_first {α : Type} {P : List α → α → Prop} {lead lead' rest rest' : List α} {x x' : α}
    (h : lead ++ x :: rest = lead' ++ x' :: rest') (hx : P lead x) (hx' : P lead' x')
    (hlead : ∀ before y after, lead = before ++ y :: after → ¬ P before y)
    (hlead' : ∀ before y after, lead' = before ++ y :: after → ¬ P before y) : x = x' := by
  rcases List.append_eq_append_iff.mp h with ⟨more, rfl, hrest⟩ | ⟨more, rfl, hrest⟩
  · cases more with
    | nil => exact (List.cons.inj hrest).1
    | cons y more =>
      obtain ⟨rfl, -⟩ := List.cons.inj hrest
      exact absurd hx (hlead' lead x more rfl)
  · cases more with
    | nil => exact (List.cons.inj hrest).1.symm
    | cons y more =>
      obtain ⟨rfl, -⟩ := List.cons.inj hrest
      exact absurd hx' (hlead lead' x' more rfl)

inductive Visit
  | read (name : Text) (location : Location)
  | bound (name : Text)

namespace Tree

/-- The visits of an evaluation that comes to its end. A target is bound behind its right side. -/
def visits : Tree → List Visit
  | .number .. => []
  | .identifier name l => [.read name l]
  | .operation _ left right _ => left.visits ++ right.visits
  | .assignment name right _ => right.visits ++ [.bound name]
  | .program .. => []

/-- Statements hold operators with a meaning and no programs. Assignments may stand anywhere. -/
def IsStatement : Tree → Prop
  | .number .. => True
  | .identifier .. => True
  | .operation op left right _ => op ∈ Operator.known ∧ left.IsStatement ∧ right.IsStatement
  | .assignment _ right _ => right.IsStatement
  | .program .. => False

end Tree

/-- A name is in no initial table and was not bound on the way. -/
def Undefined (symbols : Symbols) (before : List Visit) (name : Text) : Prop :=
  symbols.find? name = none ∧ Visit.bound name ∉ before

def AllDefined (symbols : Symbols) (visits : List Visit) : Prop :=
  ∀ lead name l rest, visits = lead ++ .read name l :: rest → ¬ Undefined symbols lead name

/-- The first name that is read without being defined. -/
def FirstUndefined (symbols : Symbols) (visits : List Visit) (name : Text) (l : Location) : Prop :=
  ∃ before after, visits = before ++ .read name l :: after ∧ AllDefined symbols before ∧
    Undefined symbols before name

/-- One table defines what another one defines after some visits. -/
def Follows (symbols : Symbols) (visits : List Visit) (symbols' : Symbols) : Prop :=
  ∀ name, symbols'.find? name = none ↔ Undefined symbols visits name

section Visits
variable {symbols symbols' symbols'' : Symbols} {v w : List Visit} {name : Text} {l : Location}

theorem Follows.nil : Follows symbols [] symbols := by
  intro name
  exact (and_iff_left List.not_mem_nil).symm

theorem Follows.undefined_iff (h : Follows symbols v symbols') :
    Undefined symbols' w name ↔ Undefined symbols (v ++ w) name := by
  unfold Undefined
  rw [h name, Undefined, List.mem_append, not_or, and_assoc]

theorem Follows.append (h : Follows symbols v symbols') (h' : Follows symbols' w symbols'') :
    Follows symbols (v ++ w) symbols'' := by
  intro name
  rw [h' name]
  exact h.undefined_iff

theorem Follows.bind (h : Follows symbols v symbols') (name : Text) (value : Float) :
    Follows symbols (v ++ [.bound name]) (symbols'.bind name value) := by
  apply h.append
  intro key
  rw [Symbols.find?_bind, Undefined, List.mem_singleton]
  by_cases hkey : name = key
  · subst hkey
    simp
  · simp [hkey, Ne.symm hkey]

theorem AllDefined.nil : AllDefined symbols [] := by
  intro lead name l rest h
  exact absurd h.symm (List.append_ne_nil_of_right_ne_nil lead (List.cons_ne_nil _ rest))

theorem AllDefined.single {value : Float} (h : symbols.find? name = some value) (l : Location) :
    AllDefined symbols [.read name l] := by
  intro lead key m rest he hundefined
  have hmem : .read key m ∈ [Visit.read name l] := by
    rw [he]
    exact List.mem_append_right lead List.mem_cons_self
  cases List.mem_singleton.mp hmem
  rw [hundefined.1] at h
  cases h

theorem AllDefined.append (hv : AllDefined symbols v) (hf : Follows symbols v symbols')
    (hw : AllDefined symbols' w) : AllDefined symbols (v ++ w) := by
  intro lead name l rest h
  rcases List.append_eq_append_iff.mp h with ⟨lead', rfl, hrest⟩ | ⟨more, hlead, hrest⟩
  · rw [← hf.undefined_iff]
    exact hw lead' name l rest hrest
  · cases more with
    | nil =>
      rw [List.append_nil] at hlead
      subst hlead
      have hfirst := hw [] name l rest hrest.symm
      rw [hf.undefined_iff, List.append_nil] at hfirst
      exact hfirst
    | cons visit more =>
      cases hrest
      exact hv lead name l more hlead

theorem AllDefined.concat_bound (h : AllDefined symbols v) (name : Text) :
    AllDefined symbols (v ++ [.bound name]) := by
  intro lead key l rest he
  rcases List.eq_nil_or_concat rest with rfl | ⟨rest', last, rfl⟩
  · cases (List.append_inj' he rfl).2
  · rw [List.concat_eq_append, ← List.cons_append, ← List.append_assoc] at he
    exact h lead key l rest' (List.append_inj' he rfl).1

theorem FirstUndefined.append_right (h : FirstUndefined symbols v name l) (w : List Visit) :
    FirstUndefined symbols (v ++ w) name l := by
  obtain ⟨before, after, rfl, hbefore, hname⟩ := h
  exact ⟨before, after ++ w, by simp, hbefore, hname⟩

theorem FirstUndefined.append_left (hv : AllDefined symbols v) (hf : Follows symbols v symbols')
    (h : FirstUndefined symbols' w name l) : FirstUndefined symbols (v ++ w) name l := by
  obtain ⟨before, after, rfl, hbefore, hname⟩ := h
  refine ⟨v ++ before, after, by simp, hv.append hf hbefore, ?_⟩
  exact hf.undefined_iff.mp hname

theorem AllDefined.not_firstUndefined (h : AllDefined symbols v) :
    ¬ FirstUndefined symbols v name l := by
  rintro ⟨before, after, he, -, hname⟩
  exact h before name l after he hname

theorem FirstUndefined.unique {name' : Text} {l' : Location} (h : FirstUndefined symbols v name l)
    (h' : FirstUndefined symbols v name' l') : name = name' ∧ l = l' := by
  obtain ⟨before, after, rfl, hbefore, hname⟩ := h
  obtain ⟨before', after', he, hbefore', hname'⟩ := h'
  have hnone {w : List Visit} (hw : AllDefined symbols w) : ∀ lead visit rest,
      w = lead ++ visit :: rest → ¬ ∃ key m, visit = .read key m ∧ Undefined symbols lead key := by
    rintro lead _ rest hsplit ⟨key, m, rfl, hkey⟩
    exact hw lead key m rest hsplit hkey
  cases eq_of_first (P := fun lead visit => ∃ key m, visit = .read key m ∧
    Undefined symbols lead key) he ⟨name, l, rfl, hname⟩ ⟨name', l', rfl, hname'⟩ (hnone hbefore)
    (hnone hbefore')
  exact ⟨rfl, rfl⟩

end Visits

namespace Tree

variable {limit : Nat}

/-- A statement has a value and all its names are defined where they are read, or it fails at the
first name that is not. -/
theorem evaluate_visits {t : Tree} (ht : t.IsStatement) (h : t.height ≤ limit)
    (symbols : Symbols) :
    (∃ value symbols', t.evaluate limit symbols = .ok value symbols' ∧
      AllDefined symbols t.visits ∧ Follows symbols t.visits symbols') ∨
    ∃ name l symbols', t.evaluate limit symbols =
        .error (.error (.symbolNotFound name l)) symbols' ∧
      FirstUndefined symbols t.visits name l := by
  induction t using evaluationInduction generalizing limit symbols with
  | number value l =>
    cases limit with
    | zero => cases h
    | succ limit => exact Or.inl ⟨value, symbols, rfl, .nil, .nil⟩
  | identifier name l =>
    cases limit with
    | zero => cases h
    | succ limit =>
      rw [evaluate_identifier]
      cases hfind : symbols.find? name with
      | some value =>
        refine Or.inl ⟨value, symbols, rfl, .single hfind l, ?_⟩
        intro key
        simp [Undefined, visits]
      | none => exact Or.inr ⟨name, l, symbols, rfl, [], [], rfl, .nil, hfind, List.not_mem_nil⟩
  | operation op left right l ihl ihr =>
    obtain ⟨hop, hleft, hright⟩ := ht
    rw [height] at h
    obtain ⟨limit, rfl⟩ : ∃ n, limit = n + 1 := ⟨limit - 1, by omega⟩
    rw [evaluate_operation, visits]
    rcases ihl hleft (by omega : left.height ≤ limit) symbols with
      ⟨x, symbols', hx, hdefined, hfollows⟩ | ⟨name, m, symbols', he, hfirst⟩
    · rcases ihr hright (by omega : right.height ≤ limit) symbols' with
        ⟨y, symbols'', hy, hdefined', hfollows'⟩ | ⟨name, m, symbols'', he, hfirst⟩
      · obtain ⟨z, hz⟩ := Operator.value_of_known hop x y
        refine Or.inl ⟨z, symbols'', by simp only [hx, hy, hz], ?_, hfollows.append hfollows'⟩
        exact hdefined.append hfollows hdefined'
      · refine Or.inr ⟨name, m, symbols'', by simp only [hx, he], ?_⟩
        exact .append_left hdefined hfollows hfirst
    · exact Or.inr ⟨name, m, symbols', by simp only [he], hfirst.append_right _⟩
  | assignment name right l ih =>
    rw [height] at h
    obtain ⟨limit, rfl⟩ : ∃ n, limit = n + 1 := ⟨limit - 1, by omega⟩
    rw [evaluate_assignment, visits]
    rcases ih ht (by omega : right.height ≤ limit) symbols with
      ⟨value, symbols', hv, hdefined, hfollows⟩ | ⟨key, m, symbols', he, hfirst⟩
    · refine Or.inl ⟨value, symbols'.bind name value, by simp only [hv], ?_, hfollows.bind name value⟩
      exact hdefined.concat_bound name
    · exact Or.inr ⟨key, m, symbols', by simp only [he], hfirst.append_right _⟩
  | program statements l => cases ht

theorem evaluate_eq_symbolNotFound_iff {t : Tree} (ht : t.IsStatement) (h : t.height ≤ limit)
    (symbols : Symbols) (name : Text) (l : Location) :
    (∃ symbols', t.evaluate limit symbols = .error (.error (.symbolNotFound name l)) symbols') ↔
      FirstUndefined symbols t.visits name l := by
  rcases evaluate_visits ht h symbols with
    ⟨value, symbols', hv, hdefined, -⟩ | ⟨key, m, symbols', he, hfirst⟩
  · constructor
    · rintro ⟨symbols'', he⟩
      rw [hv] at he
      cases he
    · intro hfirst
      exact absurd hfirst hdefined.not_firstUndefined
  · rw [he]
    constructor
    · rintro ⟨symbols'', heq⟩
      cases heq
      exact hfirst
    · intro hfirst'
      obtain ⟨rfl, rfl⟩ := hfirst.unique hfirst'
      exact ⟨symbols', rfl⟩

section Single
variable {t : Tree} {symbols symbols' : Symbols} (l : Location)

theorem run_single_ok {value : Float} (h : t.evaluate limit symbols = .ok value symbols') :
    symbols.run ((program [t] l).run limit) = (.ok [value], symbols') := by
  have hstatement : t.evaluateStatement limit symbols = .ok value symbols' := by
    rw [evaluateStatement, h]
  rw [Symbols.run, run, evaluateAll, bind_ok hstatement]
  rfl

theorem run_single_error {e : EvalError} (h : t.evaluate limit symbols = .error (.error e) symbols') :
    symbols.run ((program [t] l).run limit) = (.error e, symbols') := by
  have hstatement : t.evaluateStatement limit symbols = .error e symbols' := by
    rw [evaluateStatement, h]
  rw [Symbols.run, run, evaluateAll, bind_error hstatement]

end Single

end Tree

def operands : List Token → List Token
  | target :: equals :: rest =>
    if target.kind = .identifier ∧ equals.kind = .assign then rest else target :: equals :: rest
  | ts => ts

theorem operands_of_not_assigns {ts : List Token} (h : ¬ Assigns ts) : operands ts = ts := by
  unfold operands
  split
  · rename_i target equals rest
    exact if_neg fun hk => h ⟨target, equals, rest, rfl, hk⟩
  · rfl

theorem mem_of_mem_operands {t : Token} {ts : List Token} (h : t ∈ operands ts) : t ∈ ts := by
  unfold operands at h
  split at h
  · split at h
    · exact List.mem_cons_of_mem _ (List.mem_cons_of_mem _ h)
    · exact h
  · exact h

def Token.visit? (t : Token) : Option Visit :=
  if t.kind = .identifier then some (.read t.lexeme t.place) else none

namespace Token
variable {t : Token} {symbols : Symbols}

theorem visit?_of_identifier (h : t.kind = .identifier) :
    t.visit? = some (.read t.lexeme t.place) := if_pos h

theorem visit?_eq_none (h : t.kind ≠ .identifier) : t.visit? = none := if_neg h

end Token

theorem Tier.ne_identifier_of_table {tier : Tier} {kind : TokenKind} {op : Operator}
    (h : tier.table kind = some op) : kind ≠ .identifier := by
  cases sign_of_table h <;> decide

namespace Phrase
variable {level : Level}

theorem isStatement_tree (p : Phrase level) : p.tree.IsStatement := by
  induction p with
  | number | identifier => trivial
  | enclosed opening inner closing ho hc ih => exact ih
  | one operand ih => exact ih
  | two left sign right op isSign ihl ihr => exact ⟨Tier.known_of_table isSign, ihl, ihr⟩

/-- Names are read in the order of their tokens. -/
theorem visits_tree (p : Phrase level) : p.tree.visits = p.tokens.filterMap Token.visit? := by
  induction p with
  | number t ht =>
    rw [tokens, List.filterMap_cons_none (Token.visit?_eq_none (by simp [ht]))]
    rfl
  | identifier t ht =>
    rw [tokens, List.filterMap_cons_some (Token.visit?_of_identifier ht)]
    rfl
  | enclosed opening inner closing ho hc ih =>
    rw [tokens, List.filterMap_cons_none (Token.visit?_eq_none (by simp [ho])),
      List.filterMap_append, List.filterMap_cons_none (Token.visit?_eq_none (by simp [hc])),
      List.filterMap_nil, List.append_nil, ← ih]
    rfl
  | one operand ih => exact ih
  | two left sign right op isSign ihl ihr =>
    rw [tokens, List.filterMap_append,
      List.filterMap_cons_none (Token.visit?_eq_none (Tier.ne_identifier_of_table isSign)), ← ihl, ← ihr]
    rfl

end Phrase

namespace Sentence

theorem isStatement_tree (s : Sentence) : s.tree.IsStatement := by
  cases s with
  | assignment target equals right => exact right.isStatement_tree
  | comparison phrase => exact phrase.isStatement_tree

theorem exists_visits_tree (s : Sentence) : ∃ more,
    s.tree.visits = (operands s.tokens).filterMap Token.visit? ++ more ∧
      ∀ name l, .read name l ∉ more := by
  cases s with
  | assignment target equals right ht he =>
    have hoperands : operands (target :: equals :: right.tokens) = right.tokens := if_pos ⟨ht, he⟩
    refine ⟨[.bound target.lexeme], ?_, by simp⟩
    rw [tokens, hoperands, tree, Tree.visits, right.visits_tree]
  | comparison phrase =>
    refine ⟨[], ?_, by simp⟩
    rw [tokens, operands_of_not_assigns phrase.not_assigns, List.append_nil]
    exact phrase.visits_tree

end Sentence

section Tokens
variable {symbols : Symbols} {ts : List Token}

theorem exists_first_unbound (symbols : Symbols) (ts : List Token) :
    (∀ t ∈ ts, ¬ t.Unbound symbols) ∨
    ∃ lead t rest, ts = lead ++ t :: rest ∧ (∀ u ∈ lead, ¬ u.Unbound symbols) ∧
      t.Unbound symbols := by
  induction ts with
  | nil => exact Or.inl (List.forall_mem_nil _)
  | cons t ts ih =>
    by_cases ht : t.Unbound symbols
    · exact Or.inr ⟨[], t, ts, rfl, List.forall_mem_nil _, ht⟩
    · rcases ih with hall | ⟨lead, u, rest, rfl, hlead, hu⟩
      · exact Or.inl (List.forall_mem_cons.mpr ⟨ht, hall⟩)
      · exact Or.inr ⟨t :: lead, u, rest, rfl, List.forall_mem_cons.mpr ⟨ht, hlead⟩, hu⟩

theorem exists_unbound_of_read {name : Text} {l : Location}
    (h : .read name l ∈ ts.filterMap Token.visit?) (hname : symbols.find? name = none) :
    ∃ t ∈ ts, t.Unbound symbols := by
  obtain ⟨t, ht, hvisit⟩ := List.mem_filterMap.mp h
  unfold Token.visit? at hvisit
  split at hvisit
  · rename_i hk
    cases hvisit
    exact ⟨t, ht, hk, hname⟩
  · cases hvisit

theorem allDefined_of_bound (h : ∀ t ∈ ts, ¬ t.Unbound symbols) :
    AllDefined symbols (ts.filterMap Token.visit?) := by
  intro lead name l rest he hundefined
  have hmem : .read name l ∈ ts.filterMap Token.visit? := by
    rw [he]
    exact List.mem_append_right lead List.mem_cons_self
  obtain ⟨t, ht, hunbound⟩ := exists_unbound_of_read hmem hundefined.1
  exact h t ht hunbound

/-- Without assignments on the way the first name that is not defined is the first unbound one. -/
theorem firstUndefined_of_unbound {lead rest : List Token} {t : Token}
    (hlead : ∀ u ∈ lead, ¬ u.Unbound symbols) (ht : t.Unbound symbols) :
    FirstUndefined symbols ((lead ++ t :: rest).filterMap Token.visit?) t.lexeme t.place := by
  refine ⟨lead.filterMap Token.visit?, rest.filterMap Token.visit?, ?_, allDefined_of_bound hlead,
    ht.find?, ?_⟩
  · rw [List.filterMap_append, List.filterMap_cons_some (Token.visit?_of_identifier ht.kind)]
  · intro hbound
    obtain ⟨u, -, hu⟩ := List.mem_filterMap.mp hbound
    unfold Token.visit? at hu
    split at hu <;> cases hu

end Tokens

namespace Source

variable {source : Text} {symbols : Symbols}

/-- A source fails at the first of its operands that is not bound, or has results. -/
theorem evaluate_first_unbound {ts : List Token} {tree : Tree} (hscan : Token.scan source = .ok ts)
    (h : parse source = .ok tree) (symbols : Symbols) :
    ((∀ t ∈ operands ts, ¬ t.Unbound symbols) ∧
      ∃ values, (evaluate source symbols).1 = .ok values) ∨
    ∃ lead t rest, operands ts = lead ++ t :: rest ∧ (∀ u ∈ lead, ¬ u.Unbound symbols) ∧
      t.Unbound symbols ∧
      (evaluate source symbols).1 = .error (.eval (.symbolNotFound t.lexeme t.place)) := by
  obtain ⟨ts', hscan', ⟨rfl, rfl⟩ | ⟨s, rfl, hd, rfl⟩⟩ := exists_tokens_of_parse h
  · obtain rfl := Except.ok.inj (hscan.symm.trans hscan')
    refine Or.inl ⟨List.forall_mem_nil _, [], ?_⟩
    rw [evaluate_of_parse h, run_nil]
    rfl
  · obtain rfl := Except.ok.inj (hscan.symm.trans hscan')
    have hheight : s.tree.height ≤ Tree.walkLimit := Nat.le_trans (height_tree_le hd) (by decide)
    obtain ⟨more, hvisits, hmore⟩ := s.exists_visits_tree
    rw [evaluate_of_parse h]
    rcases exists_first_unbound symbols (operands s.tokens) with
      hbound | ⟨lead, t, rest, hsplit, hlead, ht⟩
    · refine Or.inl ⟨hbound, ?_⟩
      rcases Tree.evaluate_visits s.isStatement_tree hheight symbols with
        ⟨value, symbols', hv, -⟩ | ⟨name, l, symbols', -, before, after, he, -, hname⟩
      · rw [Tree.run_single_ok _ hv]
        exact ⟨[value], rfl⟩
      · have hmem : .read name l ∈ (operands s.tokens).filterMap Token.visit? ++ more := by
          rw [← hvisits, he]
          exact List.mem_append_right before List.mem_cons_self
        rcases List.mem_append.mp hmem with hmem | hmem
        · obtain ⟨t, ht, hunbound⟩ := exists_unbound_of_read hmem hname.1
          exact absurd hunbound (hbound t ht)
        · exact absurd hmem (hmore name l)
    · have hfirst : FirstUndefined symbols s.tree.visits t.lexeme t.place := by
        rw [hvisits, hsplit]
        exact (firstUndefined_of_unbound hlead ht).append_right more
      obtain ⟨symbols', he⟩ :=
        (Tree.evaluate_eq_symbolNotFound_iff s.isStatement_tree hheight symbols _ _).mpr hfirst
      refine Or.inr ⟨lead, t, rest, hsplit, hlead, ht, ?_⟩
      rw [Tree.run_single_error _ he]
      rfl

/-- Evaluation reports the first name that it reads without a definition, and only such names;
without one it has a value. In a source that is the first unbound identifier that is no target. -/
theorem undefined_names_reported_first :
    (∀ (t : Tree) (limit : Nat) (symbols : Symbols), t.IsStatement → t.height ≤ limit →
      ((∃ name l symbols', t.evaluate limit symbols =
          .error (.error (.symbolNotFound name l)) symbols') ↔
        ∃ before name l after, t.visits = before ++ .read name l :: after ∧
          symbols.find? name = none ∧ .bound name ∉ before) ∧
      (∀ name l, (∃ symbols', t.evaluate limit symbols =
          .error (.error (.symbolNotFound name l)) symbols') ↔
        FirstUndefined symbols t.visits name l) ∧
      ((∀ name l symbols', t.evaluate limit symbols ≠
          .error (.error (.symbolNotFound name l)) symbols') →
        ∃ value symbols', t.evaluate limit symbols = .ok value symbols')) ∧
    ∀ (source : Text) (ts : List Token) (tree : Tree) (symbols : Symbols),
      Token.scan source = .ok ts → parse source = .ok tree →
      (∀ name l, (evaluate source symbols).1 = .error (.eval (.symbolNotFound name l)) ↔
        ∃ lead t rest, operands ts = lead ++ t :: rest ∧ (∀ u ∈ lead, ¬ u.Unbound symbols) ∧
          t.Unbound symbols ∧ t.lexeme = name ∧ t.location? = some l) ∧
      ((∀ t ∈ operands ts, ¬ t.Unbound symbols) →
        ∃ values, (evaluate source symbols).1 = .ok values) := by
  refine ⟨fun t limit symbols ht h => ⟨?_, ?_, ?_⟩, ?_⟩
  · rcases Tree.evaluate_visits ht h symbols with
      ⟨value, symbols', hv, hdefined, -⟩ | ⟨name, l, symbols', he, hfirst⟩
    · rw [hv]
      constructor
      · rintro ⟨name, l, symbols'', heq⟩
        cases heq
      · rintro ⟨before, name, l, after, hsplit, hname⟩
        exact absurd hname (hdefined before name l after hsplit)
    · refine iff_of_true ⟨name, l, symbols', he⟩ ?_
      obtain ⟨before, after, hsplit, -, hname⟩ := hfirst
      exact ⟨before, name, l, after, hsplit, hname⟩
  · exact Tree.evaluate_eq_symbolNotFound_iff ht h symbols
  · intro hnone
    rcases Tree.evaluate_visits ht h symbols with
      ⟨value, symbols', hv, -⟩ | ⟨name, l, symbols', he, -⟩
    · exact ⟨value, symbols', hv⟩
    · exact absurd he (hnone name l symbols')
  · intro source ts tree symbols hscan hparse
    rcases evaluate_first_unbound hscan hparse symbols with
      ⟨hbound, values, hv⟩ | ⟨lead, t, rest, hsplit, hlead, ht, he⟩
    · refine ⟨fun name l => iff_of_false ?_ ?_, fun _ => ⟨values, hv⟩⟩
      · rw [hv]
        exact fun h => by cases h
      · rintro ⟨lead, t, rest, hsplit, -, ht, -⟩
        exact hbound t (hsplit ▸ List.mem_append_right lead List.mem_cons_self) ht
    · have hmem : t ∈ operands ts := hsplit ▸ List.mem_append_right lead List.mem_cons_self
      have hplace := (Token.sound_of_scan hscan t (mem_of_mem_operands hmem)).location?
      refine ⟨fun name l => ?_, fun hall => absurd ht (hall t hmem)⟩
      rw [he]
      constructor
      · intro heq
        cases heq
        exact ⟨lead, t, rest, hsplit, hlead, ht, rfl, hplace⟩
      · rintro ⟨lead', t', rest', hsplit', hlead', ht', rfl, hplace'⟩
        obtain rfl := eq_of_first (P := fun _ u => u.Unbound symbols) (hsplit.symm.trans hsplit')
          ht ht' (fun before u after he => hlead u (he ▸ List.mem_append_right _ List.mem_cons_self))
          (fun before u after he => hlead' u (he ▸ List.mem_append_right _ List.mem_cons_self))
        rw [Option.some.inj (hplace.symm.trans hplace')]

/-- `y` is bound when it is read, but `z` is not: its right side comes before its binding. -/
theorem undefined_names_own_binding :
    let t : Tree := .operation .sum (.assignment ['y'] (.identifier ['P', 'I'] ⟨0, 5⟩) ⟨0, 1⟩)
      (.assignment ['z'] (.operation .product (.identifier ['y'] ⟨0, 16⟩)
        (.identifier ['z'] ⟨0, 20⟩) ⟨0, 18⟩) ⟨0, 12⟩) ⟨0, 9⟩
    t.IsStatement ∧ t.height ≤ 4 ∧ FirstUndefined .builtin t.visits ['z'] ⟨0, 20⟩ ∧
    (∃ symbols', t.evaluate 4 .builtin =
      .error (.error (.symbolNotFound ['z'] ⟨0, 20⟩)) symbols') ∧
    ∃ lead u rest, operands [⟨.identifier, ['z'], 0, 0⟩, ⟨.assign, ['='], 0, 2⟩,
        ⟨.identifier, ['P', 'I'], 0, 4⟩, ⟨.plus, ['+'], 0, 7⟩, ⟨.identifier, ['x'], 1, 0⟩] =
          lead ++ u :: rest ∧ u.Unbound .builtin ∧ u.lexeme = ['x'] ∧ u.location? = some ⟨1, 0⟩ := by
  intro t
  obtain ⟨htree, hsource⟩ := undefined_names_reported_first
  have ht : t.IsStatement := by simp [t, Tree.IsStatement, Operator.known]
  have hheight : t.height ≤ 4 := by decide
  have heval : t.evaluate 4 .builtin = .error (.error (.symbolNotFound ['z'] ⟨0, 20⟩))
      (Symbols.builtin.bind ['y'] Symbols.pi) := rfl
  have hscan : Token.scan "z = PI +\nx".toList = .ok [⟨.identifier, ['z'], 0, 0⟩,
      ⟨.assign, ['='], 0, 2⟩, ⟨.identifier, ['P', 'I'], 0, 4⟩, ⟨.plus, ['+'], 0, 7⟩,
      ⟨.identifier, ['x'], 1, 0⟩] := by cbv
  have hparse : parse "z = PI +\nx".toList = .ok (.program [.assignment ['z'] (.operation .sum
      (.identifier ['P', 'I'] ⟨0, 4⟩) (.identifier ['x'] ⟨1, 0⟩) ⟨0, 7⟩) ⟨0, 0⟩] .origin) := by cbv
  have herror : (evaluate "z = PI +\nx".toList .builtin).1 =
      .error (.eval (.symbolNotFound ['x'] ⟨1, 0⟩)) := by
    rw [evaluate, hparse]
    rfl
  obtain ⟨lead, u, rest, hsplit, -, hu, hlexeme, hplace⟩ :=
    ((hsource _ _ _ .builtin hscan hparse).1 _ _).mp herror
  refine ⟨ht, hheight, ?_, ⟨_, heval⟩, lead, u, rest, hsplit, hu, hlexeme, hplace⟩
  exact ((htree t 4 .builtin ht hheight).2.1 _ _).mp ⟨_, heval⟩

end Source

end Calculator
