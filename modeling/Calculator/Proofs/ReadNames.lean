import Calculator.Proofs.Relayout
import Calculator.Proofs.Reprint

/-! Evaluation reads only the names that a tree mentions. On two tables that agree on these names
it takes the same course: it ends alike, and what it binds it binds in both tables to the same
number. -/

set_option autoImplicit false

namespace Calculator

namespace Tree

mutual

/-- The names that stand in a tree as operands. -/
def names : Tree → List Text
  | .number .. => []
  | .identifier name _ => [name]
  | .operation _ left right _ => left.names ++ right.names
  | .assignment _ right _ => right.names
  | .program statements _ => namesAll statements

def namesAll : List Tree → List Text
  | [] => []
  | t :: rest => t.names ++ namesAll rest

end

end Tree

/-- Two tables have changed in step: on each name they agree now, or neither has changed. -/
def Symbols.InStep (s s' u u' : Symbols) : Prop :=
  ∀ key, u.find? key = u'.find? key ∨ (u.find? key = s.find? key ∧ u'.find? key = s'.find? key)

namespace Symbols.InStep

variable {s s' u u' w w' : Symbols} {name : Text}

theorem refl (s s' : Symbols) : InStep s s' s s' := fun _ => Or.inr ⟨rfl, rfl⟩

theorem trans (h : InStep s s' u u') (h' : InStep u u' w w') : InStep s s' w w' := by
  intro key
  rcases h' key with hkey | ⟨hkey, hkey'⟩
  · exact Or.inl hkey
  · rw [hkey, hkey']
    exact h key

theorem bind (h : InStep s s' u u') (name : Text) (value : Float) :
    InStep s s' (u.bind name value) (u'.bind name value) := by
  intro key
  rw [Symbols.find?_bind, Symbols.find?_bind]
  split
  · exact Or.inl rfl
  · exact h key

theorem find?_eq (h : InStep s s' u u') (hname : s.find? name = s'.find? name) :
    u.find? name = u'.find? name := by
  rcases h name with hkey | ⟨hkey, hkey'⟩
  · exact hkey
  · rw [hkey, hkey', hname]

end Symbols.InStep

/-- Two computations end alike, and their tables have changed in step. -/
inductive Alike {ε α : Type} (s s' : Symbols) :
    EStateM.Result ε Symbols α → EStateM.Result ε Symbols α → Prop
  | ok (a : α) {u u' : Symbols} : s.InStep s' u u' → Alike s s' (.ok a u) (.ok a u')
  | error (e : ε) {u u' : Symbols} : s.InStep s' u u' → Alike s s' (.error e u) (.error e u')

namespace Alike

variable {ε α β : Type} {s s' u u' : Symbols} {r r' : EStateM.Result ε Symbols α}

theorem within (hu : s.InStep s' u u') (h : Alike u u' r r') : Alike s s' r r' := by
  cases h with
  | ok a hw => exact .ok a (hu.trans hw)
  | error e hw => exact .error e (hu.trans hw)

theorem bind {x : Evaluation ε α} {f : α → Evaluation ε β} (h : Alike s s' (x s) (x s'))
    (hf : ∀ a u u', s.InStep s' u u' → Alike u u' (f a u) (f a u')) :
    Alike s s' ((x >>= f) s) ((x >>= f) s') := by
  generalize hx : x s = r at h
  generalize hx' : x s' = r' at h
  cases h with
  | ok a hu =>
    rw [bind_ok hx, bind_ok hx']
    exact (hf a _ _ hu).within hu
  | error e hu =>
    rw [bind_error hx, bind_error hx']
    exact .error e hu

theorem run {x : Evaluation ε α} (h : Alike s s' (x s) (x s')) :
    (s.run x).1 = (s'.run x).1 ∧ s.InStep s' (s.run x).2 (s'.run x).2 := by
  rw [Symbols.run, Symbols.run]
  generalize x s = r at h
  generalize x s' = r' at h
  cases h with
  | ok a hu => exact ⟨rfl, hu⟩
  | error e hu => exact ⟨rfl, hu⟩

end Alike

namespace Tree

variable {s s' : Symbols}

/-- A tree is evaluated alike on tables that agree on its names. -/
theorem evaluate_alike (t : Tree) (limit : Nat) (h : ∀ n ∈ t.names, s.find? n = s'.find? n) :
    Alike s s' (t.evaluate limit s) (t.evaluate limit s') := by
  induction t using evaluationInduction generalizing limit s s' with
  | number value l =>
    cases limit with
    | zero => exact .error _ (.refl s s')
    | succ limit => exact .ok value (.refl s s')
  | identifier name l =>
    cases limit with
    | zero => exact .error _ (.refl s s')
    | succ limit =>
      rw [evaluate_identifier, evaluate_identifier, h name (List.mem_singleton_self name)]
      cases s'.find? name with
      | some value => exact .ok value (.refl s s')
      | none => exact .error _ (.refl s s')
  | operation op left right l ihl ihr =>
    obtain ⟨hl, hr⟩ := List.forall_mem_append.mp h
    cases limit with
    | zero => exact .error _ (.refl s s')
    | succ limit =>
      rw [evaluate]
      refine (ihl limit hl).bind fun x u u' hu => ?_
      -- what the left operand has bound does not part the tables on the names of the right one
      have hright (n : Text) (hn : n ∈ right.names) : u.find? n = u'.find? n := hu.find?_eq (hr n hn)
      refine (ihr limit hright).bind fun y w w' _ => ?_
      cases op.value x y with
      | ok value => exact .ok value (.refl w w')
      | error fault => exact .error _ (.refl w w')
  | assignment name right l ih =>
    cases limit with
    | zero => exact .error _ (.refl s s')
    | succ limit =>
      rw [evaluate]
      refine (ih limit h).bind fun value u u' _ => ?_
      exact .ok value ((Symbols.InStep.refl u u').bind name value)
  | program statements l =>
    cases limit with
    | zero => exact .error _ (.refl s s')
    | succ limit => exact .error _ (.refl s s')

theorem evaluateStatement_alike (t : Tree) (limit : Nat)
    (h : ∀ n ∈ t.names, s.find? n = s'.find? n) :
    Alike s s' (t.evaluateStatement limit s) (t.evaluateStatement limit s') := by
  have halike := t.evaluate_alike limit h
  unfold evaluateStatement
  generalize t.evaluate limit s = r at halike
  generalize t.evaluate limit s' = r' at halike
  cases halike with
  | ok value hu => exact .ok value hu
  | error e hu =>
    cases e with
    | error e => exact .error e hu
    | tooDeep => exact .error _ hu

theorem evaluateAll_alike (ts : List Tree) (limit : Nat)
    (h : ∀ n ∈ namesAll ts, s.find? n = s'.find? n) :
    Alike s s' (evaluateAll limit ts s) (evaluateAll limit ts s') := by
  induction ts generalizing s s' with
  | nil => exact .ok [] (.refl s s')
  | cons t rest ih =>
    obtain ⟨ht, hrest⟩ := List.forall_mem_append.mp h
    rw [evaluateAll]
    refine (t.evaluateStatement_alike limit ht).bind fun value u u' hu => ?_
    refine (ih fun n hn => hu.find?_eq (hrest n hn)).bind fun values w w' _ => ?_
    exact .ok (value :: values) (.refl w w')

theorem run_alike (t : Tree) (limit : Nat) (h : ∀ n ∈ t.names, s.find? n = s'.find? n) :
    Alike s s' (t.run limit s) (t.run limit s') := by
  cases t with
  | program statements l => exact evaluateAll_alike statements limit h
  | number | identifier | operation | assignment => exact .error _ (.refl s s')

/-- Of a table evaluation sees the names that stand in the tree, and nothing else. Where two tables
agree on these, a tree and a program have the same outcome, and the tables change in step. -/
theorem evaluation_depends_on_names (t : Tree) (limit : Nat) (s s' : Symbols)
    (h : ∀ n ∈ t.names, s.find? n = s'.find? n) :
    ((s.run (t.evaluate limit)).1 = (s'.run (t.evaluate limit)).1 ∧
      ∀ key,
        (s.run (t.evaluate limit)).2.find? key = (s'.run (t.evaluate limit)).2.find? key ∨
        (s.run (t.evaluate limit)).2.find? key = s.find? key ∧
          (s'.run (t.evaluate limit)).2.find? key = s'.find? key) ∧
    ((s.run (t.run limit)).1 = (s'.run (t.run limit)).1 ∧
      ∀ key,
        (s.run (t.run limit)).2.find? key = (s'.run (t.run limit)).2.find? key ∨
        (s.run (t.run limit)).2.find? key = s.find? key ∧
          (s'.run (t.run limit)).2.find? key = s'.find? key) := by
  constructor
  · exact (t.evaluate_alike limit h).run
  · exact (t.run_alike limit h).run

/-- Two tables that differ on a target and on a name that is not mentioned. The program reads a name
that it has bound itself, binds the target, and breaks off; then only the other name differs. -/
theorem evaluation_depends_on_names_broken_off :
    let t := program [assignment ['a'] (identifier ['P', 'I'] ⟨0, 4⟩) ⟨0, 0⟩,
      operation .sum (assignment ['b'] (identifier ['a'] ⟨1, 5⟩) ⟨1, 1⟩)
        (identifier ['y'] ⟨1, 11⟩) ⟨1, 9⟩] .origin
    let s : Symbols := ⟨[(['P', 'I'], Symbols.pi), (['z'], Operator.tolerance)]⟩
    let s' : Symbols := ⟨[(['P', 'I'], Symbols.pi), (['b'], Operator.tolerance)]⟩
    (∀ n ∈ t.names, s.find? n = s'.find? n) ∧
    s.run (t.run 9) = (.error (.symbolNotFound ['y'] ⟨1, 11⟩),
      ⟨[(['P', 'I'], Symbols.pi), (['z'], Operator.tolerance), (['a'], Symbols.pi),
        (['b'], Symbols.pi)]⟩) ∧
    (s.run (t.run 9)).1 = (s'.run (t.run 9)).1 ∧
    ∀ key, (s.run (t.run 9)).2.find? key = (s'.run (t.run 9)).2.find? key ∨
      (s.run (t.run 9)).2.find? key = s.find? key ∧
        (s'.run (t.run 9)).2.find? key = s'.find? key := by
  intro t s s'
  have hnames : ∀ n ∈ t.names, s.find? n = s'.find? n := by
    intro n hn
    have hcases : n = ['P', 'I'] ∨ n = ['a'] ∨ n = ['y'] := by
      simpa [t, names, namesAll] using hn
    rcases hcases with rfl | rfl | rfl <;> rfl
  exact ⟨hnames, rfl, (t.evaluation_depends_on_names 9 s s' hnames).2⟩

end Tree

theorem Phrase.exists_token_of_mem_names {level : Level} (p : Phrase level) :
    ∀ n ∈ p.tree.names, ∃ t ∈ p.tokens, t.kind = .identifier ∧ t.lexeme = n := by
  intro n hn
  induction p with
  | number t ht => cases hn
  | identifier t ht =>
    obtain rfl := List.mem_singleton.mp hn
    exact ⟨t, List.mem_singleton_self t, ht, rfl⟩
  | enclosed opening inner closing ho hc ih =>
    obtain ⟨t, hm, ht⟩ := ih hn
    exact ⟨t, List.mem_cons_of_mem opening (List.mem_append_left [closing] hm), ht⟩
  | one operand ih => exact ih hn
  | two left sign right op isSign ihl ihr =>
    rcases List.mem_append.mp hn with hn | hn
    · obtain ⟨t, hm, ht⟩ := ihl hn
      exact ⟨t, List.mem_append_left (sign :: right.tokens) hm, ht⟩
    · obtain ⟨t, hm, ht⟩ := ihr hn
      exact ⟨t, List.mem_append_right left.tokens (List.mem_cons_of_mem sign hm), ht⟩

theorem Sentence.exists_token_of_mem_names (s : Sentence) :
    ∀ n ∈ s.tree.names, ∃ t ∈ s.tokens, t.kind = .identifier ∧ t.lexeme = n := by
  intro n hn
  cases s with
  | assignment target equals right =>
    obtain ⟨t, hm, ht⟩ := right.exists_token_of_mem_names n hn
    exact ⟨t, List.mem_cons_of_mem target (List.mem_cons_of_mem equals hm), ht⟩
  | comparison phrase => exact phrase.exists_token_of_mem_names n hn

namespace Source

variable {source : Text} {symbols symbols' : Symbols}

theorem lexeme_of_mem_names {tree : Tree} (h : parse source = .ok tree) :
    ∀ n ∈ tree.names, TokenKind.identifier.Lexeme n := by
  intro n hn
  rcases exists_sentence_of_parse h with rfl | ⟨s, hl, rfl⟩
  · cases hn
  · have hname : n ∈ s.tree.names := by simpa [Tree.names, Tree.namesAll] using hn
    obtain ⟨t, hm, hk, rfl⟩ := s.exists_token_of_mem_names n hname
    exact hk ▸ hl t hm

/-- Sources read identifiers only: what else is bound has no part in their results. -/
theorem evaluate_fst_of_agree (source : Text)
    (h : ∀ n, TokenKind.identifier.Lexeme n → symbols.find? n = symbols'.find? n) :
    (evaluate source symbols).1 = (evaluate source symbols').1 := by
  cases hparse : parse source with
  | error e => simp only [evaluate, hparse]
  | ok tree =>
    have hnames (n : Text) (hn : n ∈ tree.names) : symbols.find? n = symbols'.find? n :=
      h n (lexeme_of_mem_names hparse n hn)
    rw [evaluate_of_parse hparse, evaluate_of_parse hparse,
      (tree.run_alike Tree.walkLimit hnames).run.1]

end Source

end Calculator
