import Calculator.Proofs.CutShort

/-! What evaluation does to the symbol table. Whether it ends with a value or breaks off, with an
error or at the limit, the table after it comes from the table before it by bindings of names that
are assigned somewhere in the tree. So all other names are as they were, and no name is removed. -/

set_option autoImplicit false

namespace Calculator

namespace Tree

mutual

/-- The names that are assigned in a tree, also in programs inside it. -/
def targets : Tree → List Text
  | .number .. => []
  | .identifier .. => []
  | .operation _ left right _ => left.targets ++ right.targets
  | .assignment name right _ => name :: right.targets
  | .program statements _ => targetsAll statements

def targetsAll : List Tree → List Text
  | [] => []
  | t :: rest => t.targets ++ targetsAll rest

end

end Tree

/-- One table is reached from another by binding some of the given names, one after another. -/
inductive Symbols.Reaches (names : List Text) (s : Symbols) : Symbols → Prop
  | refl : Reaches names s s
  | bind {s' : Symbols} {name : Text} (value : Float) : Reaches names s s' → name ∈ names →
      Reaches names s (s'.bind name value)

namespace Symbols.Reaches

variable {names names' : List Text} {s s' s'' : Symbols} {name : Text}

theorem trans (h : Reaches names s s') (h' : Reaches names s' s'') : Reaches names s s'' := by
  induction h' with
  | refl => exact h
  | bind value _ hname ih => exact .bind value ih hname

theorem mono (h : Reaches names s s') (hnames : names ⊆ names') : Reaches names' s s' := by
  induction h with
  | refl => exact .refl
  | bind value _ hname ih => exact .bind value ih (hnames hname)

theorem find?_of_notMem (h : Reaches names s s') (hname : name ∉ names) :
    s'.find? name = s.find? name := by
  induction h with
  | refl => rfl
  | @bind s' key value _ hkey ih =>
    have hne : key ≠ name := by
      rintro rfl
      exact hname hkey
    rw [find?_bind, if_neg hne]
    exact ih

theorem find?_ne_none (h : Reaches names s s') (hname : s.find? name ≠ none) :
    s'.find? name ≠ none := by
  induction h with
  | refl => exact hname
  | bind value _ _ ih =>
    rw [find?_bind]
    split
    · exact Option.some_ne_none value
    · exact ih

end Symbols.Reaches

/-- A computation that changes its table by binding some of the given names only, however it
ends. -/
def BindsOnly {ε α : Type} (names : List Text) (x : Evaluation ε α) : Prop :=
  ∀ s : Symbols, s.Reaches names (s.run x).2

namespace BindsOnly

variable {ε α β : Type} {names names' : List Text} {x : Evaluation ε α}

theorem mono (h : BindsOnly names x) (hnames : names ⊆ names') : BindsOnly names' x := by
  intro s
  exact (h s).mono hnames

theorem pure (a : α) : BindsOnly names (pure a : Evaluation ε α) := fun _ => .refl

theorem throw (e : ε) : BindsOnly names (throw e : Evaluation ε α) := fun _ => .refl

theorem bind {f : α → Evaluation ε β} (hx : BindsOnly names x) (hf : ∀ a, BindsOnly names (f a)) :
    BindsOnly names (x >>= f) := by
  intro s
  have hfirst := hx s
  cases hs : x s with
  | error e s' =>
    rw [Symbols.run_of_error hs] at hfirst
    rw [Symbols.run_of_error (bind_error hs)]
    exact hfirst
  | ok a s' =>
    rw [Symbols.run_of_ok hs] at hfirst
    rw [Symbols.run, bind_ok hs]
    exact hfirst.trans (hf a s')

theorem modify {name : Text} (hname : name ∈ names) (value : Float) :
    BindsOnly names (modify fun s => s.bind name value : Evaluation ε PUnit) :=
  fun _ => .bind value .refl hname

end BindsOnly

namespace Tree

theorem bindsOnly_evaluate (t : Tree) (limit : Nat) : BindsOnly t.targets (t.evaluate limit) := by
  induction t using evaluationInduction generalizing limit with
  | number value l =>
    cases limit with
    | zero => exact .throw _
    | succ limit => exact .pure value
  | identifier name l =>
    cases limit with
    | zero => exact .throw _
    | succ limit =>
      intro s
      rw [Symbols.run, evaluate_identifier]
      cases s.find? name <;> exact .refl
  | operation op left right l ihl ihr =>
    cases limit with
    | zero => exact .throw _
    | succ limit =>
      rw [evaluate]
      apply ((ihl limit).mono (List.subset_append_left _ _)).bind
      intro x
      apply ((ihr limit).mono (List.subset_append_right _ _)).bind
      intro y
      cases op.value x y with
      | ok value => exact .pure value
      | error fault => exact .throw _
  | assignment name right l ih =>
    cases limit with
    | zero => exact .throw _
    | succ limit =>
      -- the target is bound last, so a right side that fails leaves it alone
      rw [evaluate]
      apply ((ih limit).mono (List.subset_cons_self _ _)).bind
      intro value
      apply (BindsOnly.modify List.mem_cons_self value).bind
      intro _
      exact .pure value
  | program statements l =>
    cases limit <;> exact .throw _

theorem bindsOnly_evaluateStatement (t : Tree) (limit : Nat) :
    BindsOnly t.targets (t.evaluateStatement limit) := by
  intro s
  have h := t.bindsOnly_evaluate limit s
  rw [Symbols.run] at h ⊢
  unfold evaluateStatement
  cases hresult : t.evaluate limit s with
  | ok value s' =>
    rw [hresult] at h
    exact h
  | error e s' =>
    rw [hresult] at h
    cases e <;> exact h

theorem bindsOnly_evaluateAll (ts : List Tree) (limit : Nat) :
    BindsOnly (targetsAll ts) (evaluateAll limit ts) := by
  induction ts with
  | nil => exact .pure []
  | cons t rest ih =>
    rw [evaluateAll]
    apply ((t.bindsOnly_evaluateStatement limit).mono (List.subset_append_left _ _)).bind
    intro value
    apply (ih.mono (List.subset_append_right _ _)).bind
    intro values
    exact .pure (value :: values)

theorem bindsOnly_run (t : Tree) (limit : Nat) : BindsOnly t.targets (t.run limit) := by
  cases t with
  | program statements l => exact bindsOnly_evaluateAll statements limit
  | number | identifier | operation | assignment => exact .throw _

/-- Evaluation, of a tree or of a program, changes no name but those that the tree assigns to, and
removes none. This holds however it ends. -/
theorem evaluation_changes_only_targets (t : Tree) (limit : Nat) (symbols : Symbols) :
    (∀ name, name ∉ t.targets →
      (symbols.run (t.evaluate limit)).2.find? name = symbols.find? name ∧
      (symbols.run (t.run limit)).2.find? name = symbols.find? name) ∧
    ∀ name, symbols.find? name ≠ none →
      (symbols.run (t.evaluate limit)).2.find? name ≠ none ∧
      (symbols.run (t.run limit)).2.find? name ≠ none := by
  have hevaluate := t.bindsOnly_evaluate limit symbols
  have hrun := t.bindsOnly_run limit symbols
  constructor
  · intro name hname
    exact ⟨hevaluate.find?_of_notMem hname, hrun.find?_of_notMem hname⟩
  · intro name hname
    exact ⟨hevaluate.find?_ne_none hname, hrun.find?_ne_none hname⟩

/-- Behind an operator without a meaning an assignment stays pending; those before it are made. -/
theorem evaluation_changes_only_targets_partway :
    let p := number Symbols.pi .origin
    let t := program [assignment ['a'] p ⟨0, 0⟩,
      operation (.other ['%']) (assignment ['b'] p ⟨1, 1⟩) (assignment ['a'] p ⟨1, 9⟩) ⟨1, 7⟩,
      assignment ['c'] p ⟨2, 0⟩] .origin
    let outcome := Symbols.builtin.run (t.run 9)
    outcome = (.error (.unimplemented (.operator ['%'])),
      ⟨[(['P', 'I'], Symbols.pi), (['a'], Symbols.pi), (['b'], Symbols.pi)]⟩) ∧
    ['P', 'I'] ∉ t.targets ∧ outcome.2.find? ['P', 'I'] = some Symbols.pi ∧
    Symbols.builtin.find? ['P', 'I'] ≠ none ∧ outcome.2.find? ['P', 'I'] ≠ none := by
  intro p t outcome
  obtain ⟨hframe, hkept⟩ := t.evaluation_changes_only_targets 9 .builtin
  have hname : ['P', 'I'] ∉ t.targets := by decide
  have hbound : Symbols.builtin.find? ['P', 'I'] ≠ none := Option.some_ne_none Symbols.pi
  exact ⟨rfl, hname, (hframe ['P', 'I'] hname).2, hbound, (hkept ['P', 'I'] hbound).2⟩

end Tree

end Calculator
