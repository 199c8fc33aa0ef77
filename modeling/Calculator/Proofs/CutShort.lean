import Calculator.Proofs.WalkDepth

/-! Evaluation with a limit is evaluation without one, cut short. A walk without limit leaves a
trail: the nodes it reaches, with their depth, and the assignments it completes, in this order. A
limit has no effect unless the trail holds a node that lies deeper; then it ends the walk there,
and what was assigned before stays. -/

set_option autoImplicit false

namespace Calculator

/-- For evaluation a program inside a tree is a leaf. -/
theorem Tree.evaluationInduction {motive : Tree → Prop}
    (number : ∀ value l, motive (.number value l))
    (identifier : ∀ name l, motive (.identifier name l))
    (operation : ∀ op left right l, motive left → motive right →
      motive (.operation op left right l))
    (assignment : ∀ name right l, motive right → motive (.assignment name right l))
    (program : ∀ statements l, motive (.program statements l)) : (t : Tree) → motive t
  | .number value l => number value l
  | .identifier name l => identifier name l
  | .operation op left right l => operation op left right l
      (evaluationInduction number identifier operation assignment program left)
      (evaluationInduction number identifier operation assignment program right)
  | .assignment name right l => assignment name right l
      (evaluationInduction number identifier operation assignment program right)
  | .program statements l => program statements l

/-- What happens on a walk: a node is reached so many nodes deep, or an assignment is completed. -/
inductive Mark
  | node (depth : Nat)
  | bound (name : Text) (value : Float)

namespace Tree

/-- The value of a tree, however deep it is. -/
def unlimited : Tree → Evaluation EvalError Float
  | .number value _ => return value
  | .identifier name l => do
    let symbols ← get
    match symbols.find? name with
    | some value => return value
    | none => throw (.symbolNotFound name l)
  | .operation op left right _ => do
    let x ← left.unlimited
    let y ← right.unlimited
    match op.value x y with
    | .ok value => return value
    | .error fault => throw (fault.error op)
  | .assignment name right _ => do
    let value ← right.unlimited
    modify fun symbols => symbols.bind name value
    return value
  | .program statements l =>
    throw (.unimplemented (.evaluation (Tree.program statements l).sort))

def unlimitedAll : List Tree → Evaluation EvalError (List Float)
  | [] => return []
  | t :: rest => do
    let value ← t.unlimited
    let values ← unlimitedAll rest
    return value :: values

/-- The trail of a walk that starts at a node so many nodes deep. What comes behind an error is
not reached, and an assignment is completed when its right side has a value. -/
def trail : Tree → (depth : Nat) → Symbols → List Mark
  | .number .., depth, _ => [.node depth]
  | .identifier .., depth, _ => [.node depth]
  | .operation _ left right _, depth, symbols =>
    .node depth :: (left.trail (depth + 1) symbols ++
      match left.unlimited symbols with
      | .ok _ symbols' => right.trail (depth + 1) symbols'
      | .error .. => [])
  | .assignment name right _, depth, symbols =>
    .node depth :: (right.trail (depth + 1) symbols ++
      match right.unlimited symbols with
      | .ok value _ => [.bound name value]
      | .error .. => [])
  | .program .., depth, _ => [.node depth]

/-- The trail of statements in order. Each of them is the first node of its walk. -/
def trailAll : List Tree → Symbols → List Mark
  | [], _ => []
  | t :: rest, symbols =>
    t.trail 1 symbols ++
      match t.unlimited symbols with
      | .ok _ symbols' => trailAll rest symbols'
      | .error .. => []

end Tree

def replay : List Mark → Symbols → Symbols
  | [], symbols => symbols
  | .node _ :: marks, symbols => replay marks symbols
  | .bound name value :: marks, symbols => replay marks (symbols.bind name value)

/-- What comes before the first node that lies deeper than the limit, if there is one. -/
def cutAt (limit : Nat) : List Mark → Option (List Mark)
  | [] => none
  | .node depth :: marks =>
    if limit < depth then some [] else (cutAt limit marks).map (.node depth :: ·)
  | .bound name value :: marks => (cutAt limit marks).map (.bound name value :: ·)

theorem replay_append (marks more : List Mark) (symbols : Symbols) :
    replay (marks ++ more) symbols = replay more (replay marks symbols) := by
  induction marks generalizing symbols with
  | nil => rfl
  | cons mark marks ih => cases mark <;> exact ih _

section CutAt
variable {limit : Nat}

theorem cutAt_append (marks more : List Mark) :
    cutAt limit (marks ++ more) =
      match cutAt limit marks with
      | some early => some early
      | none => (cutAt limit more).map (marks ++ ·) := by
  induction marks with
  | nil => simp [cutAt]
  | cons mark marks ih =>
    cases mark with
    | node depth =>
      simp only [List.cons_append, cutAt, ih]
      by_cases hdeep : limit < depth
      · simp [hdeep]
      · cases cutAt limit marks <;> simp [hdeep, Function.comp_def]
    | bound name value =>
      simp only [List.cons_append, cutAt, ih]
      cases cutAt limit marks <;> simp [Function.comp_def]

theorem cutAt_eq_none_iff (marks : List Mark) :
    cutAt limit marks = none ↔ ∀ depth, .node depth ∈ marks → depth ≤ limit := by
  induction marks with
  | nil => simp [cutAt]
  | cons mark marks ih =>
    cases mark with
    | node depth =>
      by_cases hdeep : limit < depth
      · simp only [cutAt, hdeep, if_true, reduceCtorEq, false_iff]
        intro h
        have hle := h depth List.mem_cons_self
        omega
      · simp [cutAt, hdeep, ih]
        omega
    | bound name value => simp [cutAt, ih]

theorem exists_of_cutAt {marks early : List Mark} (h : cutAt limit marks = some early) :
    ∃ depth late, marks = early ++ .node depth :: late ∧ limit < depth ∧
      ∀ d, .node d ∈ early → d ≤ limit := by
  induction marks generalizing early with
  | nil => cases h
  | cons mark marks ih =>
    cases mark with
    | node depth =>
      rw [cutAt] at h
      split at h
      · rename_i hdeep
        cases h
        exact ⟨depth, marks, rfl, hdeep, by simp⟩
      · rename_i hshallow
        obtain ⟨rest, hrest, rfl⟩ := Option.map_eq_some_iff.mp h
        obtain ⟨d, late, rfl, hd, hearly⟩ := ih hrest
        refine ⟨d, late, rfl, hd, ?_⟩
        intro d' hd'
        rcases List.mem_cons.mp hd' with he | hm
        · cases he
          omega
        · exact hearly d' hm
    | bound name value =>
      obtain ⟨rest, hrest, rfl⟩ := Option.map_eq_some_iff.mp h
      obtain ⟨d, late, rfl, hd, hearly⟩ := ih hrest
      refine ⟨d, late, rfl, hd, ?_⟩
      intro d' hd'
      exact hearly d' (by simpa using hd')

end CutAt

namespace Tree

section Steps
variable (op : Operator) (left right : Tree) (name : Text) (l : Location) (symbols : Symbols)

theorem unlimited_identifier : (identifier name l).unlimited symbols =
    match symbols.find? name with
    | some value => .ok value symbols
    | none => .error (.symbolNotFound name l) symbols := by
  change (match symbols.find? name with
    | some value => pure value
    | none => throw (.symbolNotFound name l) : Evaluation EvalError Float) symbols = _
  cases symbols.find? name <;> rfl

theorem unlimited_operation : (operation op left right l).unlimited symbols =
    match left.unlimited symbols with
    | .error e symbols' => .error e symbols'
    | .ok x symbols' =>
      match right.unlimited symbols' with
      | .error e symbols'' => .error e symbols''
      | .ok y symbols'' =>
        match op.value x y with
        | .ok value => .ok value symbols''
        | .error fault => .error (fault.error op) symbols'' := by
  rw [unlimited, bind_eq]
  cases left.unlimited symbols with
  | error e symbols' => rfl
  | ok x symbols' =>
    simp only
    rw [bind_eq]
    cases right.unlimited symbols' with
    | error e symbols'' => rfl
    | ok y symbols'' =>
      simp only
      cases op.value x y <;> rfl

theorem unlimited_assignment : (assignment name right l).unlimited symbols =
    match right.unlimited symbols with
    | .error e symbols' => .error e symbols'
    | .ok value symbols' => .ok value (symbols'.bind name value) := by
  rw [unlimited, bind_eq]
  cases right.unlimited symbols <;> rfl

end Steps

/-- The assignments of a trail are those of the walk. -/
theorem replay_trail (t : Tree) (depth : Nat) (symbols : Symbols) :
    replay (t.trail depth symbols) symbols = (symbols.run t.unlimited).2 := by
  induction t using evaluationInduction generalizing depth symbols with
  | number | program => rfl
  | identifier name l =>
    rw [Symbols.run, unlimited_identifier]
    cases symbols.find? name <;> rfl
  | operation op left right l ihl ihr =>
    have hleft := ihl (depth + 1) symbols
    rw [Symbols.run, unlimited_operation, trail, replay, replay_append, hleft, Symbols.run]
    cases left.unlimited symbols with
    | error e symbols' => rfl
    | ok x symbols' =>
      have hright := ihr (depth + 1) symbols'
      simp only
      rw [hright, Symbols.run]
      cases right.unlimited symbols' with
      | error e symbols'' => rfl
      | ok y symbols'' =>
        simp only
        cases op.value x y <;> rfl
  | assignment name right l ih =>
    have hright := ih (depth + 1) symbols
    rw [Symbols.run, unlimited_assignment, trail, replay, replay_append, hright, Symbols.run]
    cases right.unlimited symbols <;> rfl

/-- The result of a walk that is cut behind some marks, or goes on to the result without limit. -/
def cutShort (symbols : Symbols) (result : EStateM.Result EvalError Symbols Float) :
    Option (List Mark) → EStateM.Result EvalFailure Symbols Float
  | some early => .error .tooDeep (replay early symbols)
  | none =>
    match result with
    | .ok value symbols' => .ok value symbols'
    | .error e symbols' => .error (.error e) symbols'

theorem trail_eq_cons (t : Tree) (depth : Nat) (symbols : Symbols) :
    ∃ marks, t.trail depth symbols = .node depth :: marks := by
  cases t <;> exact ⟨_, by rw [trail]⟩

theorem evaluate_zero_eq_cutShort {bound depth : Nat} (h : bound < depth) (t : Tree)
    (symbols : Symbols) : t.evaluate 0 symbols =
      cutShort symbols (t.unlimited symbols) (cutAt bound (t.trail depth symbols)) := by
  obtain ⟨marks, hmarks⟩ := t.trail_eq_cons depth symbols
  rw [evaluate_zero, hmarks, cutAt, if_pos h]
  rfl

/-- A walk that may go `limit` nodes deep from a node at `depth` ends where the trail is cut. -/
theorem evaluate_eq_cutShort (t : Tree) {limit depth bound : Nat} (h : depth + limit = bound + 1)
    (symbols : Symbols) :
    t.evaluate limit symbols =
      cutShort symbols (t.unlimited symbols) (cutAt bound (t.trail depth symbols)) := by
  induction t using evaluationInduction generalizing limit depth symbols with
  | number value l =>
    cases limit with
    | zero => exact evaluate_zero_eq_cutShort (by omega) _ symbols
    | succ limit =>
      rw [trail, cutAt, if_neg (by omega), cutAt]
      rfl
  | identifier name l =>
    cases limit with
    | zero => exact evaluate_zero_eq_cutShort (by omega) _ symbols
    | succ limit =>
      rw [trail, cutAt, if_neg (by omega), cutAt, evaluate_identifier, unlimited_identifier]
      cases symbols.find? name <;> rfl
  | operation op left right l ihl ihr =>
    cases limit with
    | zero => exact evaluate_zero_eq_cutShort (by omega) _ symbols
    | succ limit =>
      -- the cut lies in the left operand, or in the right one with the left one done, or nowhere
      have hnext : depth + 1 + limit = bound + 1 := by omega
      have hleft := ihl hnext symbols
      have hreplay := left.replay_trail (depth + 1) symbols
      rw [trail, cutAt, if_neg (by omega), cutAt_append, evaluate_operation, unlimited_operation]
      cases hcl : cutAt bound (left.trail (depth + 1) symbols) with
      | some early =>
        rw [hleft, hcl]
        rfl
      | none =>
        rw [hleft, hcl]
        cases hl : left.unlimited symbols with
        | error e symbols' => rfl
        | ok x symbols' =>
          rw [Symbols.run_of_ok hl] at hreplay
          simp only [cutShort]
          rw [ihr hnext symbols']
          cases cutAt bound (right.trail (depth + 1) symbols') with
          | some early => simp [cutShort, replay, replay_append, hreplay]
          | none =>
            cases right.unlimited symbols' with
            | error e symbols'' => rfl
            | ok y symbols'' =>
              simp only [cutShort, Option.map_none]
              cases op.value x y <;> rfl
  | assignment name right l ih =>
    cases limit with
    | zero => exact evaluate_zero_eq_cutShort (by omega) _ symbols
    | succ limit =>
      have hright := ih (by omega : depth + 1 + limit = bound + 1) symbols
      rw [trail, cutAt, if_neg (by omega), cutAt_append, evaluate_assignment, unlimited_assignment]
      cases hcr : cutAt bound (right.trail (depth + 1) symbols) with
      | some early =>
        rw [hright, hcr]
        rfl
      | none =>
        rw [hright, hcr]
        cases right.unlimited symbols <;> rfl
  | program statements l =>
    cases limit with
    | zero => exact evaluate_zero_eq_cutShort (by omega) _ symbols
    | succ limit =>
      rw [trail, cutAt, if_neg (by omega), cutAt]
      rfl

theorem evaluateStatement_eq (t : Tree) (limit : Nat) (symbols : Symbols) :
    t.evaluateStatement limit symbols =
      match cutAt limit (t.trail 1 symbols) with
      | some early => .error (.nestingTooDeep t.location) (replay early symbols)
      | none => t.unlimited symbols := by
  have hcut := t.evaluate_eq_cutShort (Nat.add_comm 1 limit) symbols
  rw [evaluateStatement, hcut]
  cases cutAt limit (t.trail 1 symbols) with
  | some early => rfl
  | none => cases t.unlimited symbols <;> rfl

theorem unlimitedAll_cons (t : Tree) (rest : List Tree) (symbols : Symbols) :
    unlimitedAll (t :: rest) symbols =
      match t.unlimited symbols with
      | .error e symbols' => .error e symbols'
      | .ok value symbols' =>
        match unlimitedAll rest symbols' with
        | .error e symbols'' => .error e symbols''
        | .ok values symbols'' => .ok (value :: values) symbols'' := by
  rw [unlimitedAll, bind_eq]
  cases t.unlimited symbols with
  | error e symbols' => rfl
  | ok value symbols' =>
    simp only
    rw [bind_eq]
    cases unlimitedAll rest symbols' <;> rfl

theorem evaluateAll_cons (limit : Nat) (t : Tree) (rest : List Tree) (symbols : Symbols) :
    evaluateAll limit (t :: rest) symbols =
      match t.evaluateStatement limit symbols with
      | .error e symbols' => .error e symbols'
      | .ok value symbols' =>
        match evaluateAll limit rest symbols' with
        | .error e symbols'' => .error e symbols''
        | .ok values symbols'' => .ok (value :: values) symbols'' := by
  rw [evaluateAll, bind_eq]
  cases t.evaluateStatement limit symbols with
  | error e symbols' => rfl
  | ok value symbols' =>
    simp only
    rw [bind_eq]
    cases evaluateAll limit rest symbols' <;> rfl

theorem replay_trailAll (statements : List Tree) (symbols : Symbols) :
    replay (trailAll statements symbols) symbols = (symbols.run (unlimitedAll statements)).2 := by
  induction statements generalizing symbols with
  | nil => rfl
  | cons t rest ih =>
    have hfirst := t.replay_trail 1 symbols
    rw [trailAll, replay_append, hfirst, Symbols.run, Symbols.run, unlimitedAll_cons]
    cases t.unlimited symbols with
    | error e symbols' => rfl
    | ok value symbols' =>
      simp only
      rw [ih symbols', Symbols.run]
      cases unlimitedAll rest symbols' <;> rfl

section Statements
variable {limit : Nat} {statements : List Tree} {symbols : Symbols}

theorem evaluateAll_of_shallow (h : cutAt limit (trailAll statements symbols) = none) :
    evaluateAll limit statements symbols = unlimitedAll statements symbols := by
  induction statements generalizing symbols with
  | nil => rfl
  | cons t rest ih =>
    rw [trailAll, cutAt_append] at h
    rw [evaluateAll_cons, unlimitedAll_cons, evaluateStatement_eq]
    cases hfirst : cutAt limit (t.trail 1 symbols) with
    | some early =>
      rw [hfirst] at h
      cases h
    | none =>
      simp only [hfirst] at h ⊢
      cases hvalue : t.unlimited symbols with
      | error e symbols' => rfl
      | ok value symbols' =>
        simp only [hvalue, Option.map_eq_none_iff] at h ⊢
        rw [ih h]

/-- The first statement that goes too deep ends the run; what came before it was evaluated. -/
theorem evaluateAll_of_deep {early : List Mark}
    (h : cutAt limit (trailAll statements symbols) = some early) :
    ∃ before t after values symbols' own, statements = before ++ t :: after ∧
      unlimitedAll before symbols = .ok values symbols' ∧
      cutAt limit (trailAll before symbols) = none ∧
      cutAt limit (t.trail 1 symbols') = some own ∧
      evaluateAll limit statements symbols =
        .error (.nestingTooDeep t.location) (replay own symbols') := by
  induction statements generalizing symbols early with
  | nil => cases h
  | cons t rest ih =>
    rw [trailAll, cutAt_append] at h
    rw [evaluateAll_cons, evaluateStatement_eq]
    cases hfirst : cutAt limit (t.trail 1 symbols) with
    | some own => exact ⟨[], t, rest, [], symbols, own, rfl, rfl, rfl, hfirst, rfl⟩
    | none =>
      simp only [hfirst] at h ⊢
      cases hvalue : t.unlimited symbols with
      | error e symbols' =>
        rw [hvalue] at h
        cases h
      | ok value symbols' =>
        rw [hvalue] at h
        obtain ⟨late, hlate, -⟩ := Option.map_eq_some_iff.mp h
        obtain ⟨before, u, after, values, symbols'', own, rfl, hbefore, hcut, hown, hrun⟩ :=
          ih hlate
        refine ⟨t :: before, u, after, value :: values, symbols'', own, rfl, ?_, ?_, hown, ?_⟩
        · rw [unlimitedAll_cons, hvalue]
          simp only [hbefore]
        · rw [trailAll, cutAt_append, hfirst, hvalue]
          simp only [hcut, Option.map_none]
        · simp only [hrun]

end Statements

theorem depth_lt_of_mem_trail (t : Tree) {depth d : Nat} {symbols : Symbols}
    (h : .node d ∈ t.trail depth symbols) : d < depth + t.height := by
  induction t using evaluationInduction generalizing depth symbols with
  | number | identifier | program =>
    obtain rfl : d = depth := by simpa [trail] using h
    simp [height]
  | operation op left right l ihl ihr =>
    rw [height]
    rw [trail, List.mem_cons, List.mem_append] at h
    rcases h with he | hleft | hright
    · cases he
      omega
    · have hd := ihl hleft
      omega
    · split at hright
      · have hd := ihr hright
        omega
      · cases hright
  | assignment name right l ih =>
    rw [height]
    rw [trail, List.mem_cons, List.mem_append] at h
    rcases h with he | hright | hbound
    · cases he
      omega
    · have hd := ih hright
      omega
    · split at hbound
      · simp at hbound
      · cases hbound

theorem depth_le_of_mem_trailAll {statements : List Tree} {limit d : Nat} {symbols : Symbols}
    (h : ∀ t ∈ statements, t.height ≤ limit) (hd : .node d ∈ trailAll statements symbols) :
    d ≤ limit := by
  induction statements generalizing symbols with
  | nil => cases hd
  | cons t rest ih =>
    obtain ⟨ht, hrest⟩ := List.forall_mem_cons.mp h
    rw [trailAll, List.mem_append] at hd
    rcases hd with hfirst | hlater
    · have hlt := t.depth_lt_of_mem_trail hfirst
      omega
    · split at hlater
      · exact ih hrest hlater
      · cases hlater

/-- A limit changes no answer. Unless the walk without limit comes to a node that lies deeper, the
run is that without limit; otherwise it ends there, and the table holds what was assigned before. -/
theorem run_cut_short (statements : List Tree) (l : Location) (symbols : Symbols) (limit : Nat) :
    replay (trailAll statements symbols) symbols = (symbols.run (unlimitedAll statements)).2 ∧
    (((∀ depth, .node depth ∈ trailAll statements symbols → depth ≤ limit) ∧
        symbols.run ((program statements l).run limit) = symbols.run (unlimitedAll statements)) ∨
      ∃ before t after values symbols' early depth late, statements = before ++ t :: after ∧
        symbols.run (unlimitedAll before) = (.ok values, symbols') ∧
        (∀ d, .node d ∈ trailAll before symbols → d ≤ limit) ∧
        t.trail 1 symbols' = early ++ .node depth :: late ∧ limit < depth ∧
        (∀ d, .node d ∈ early → d ≤ limit) ∧
        symbols.run ((program statements l).run limit) =
          (.error (.nestingTooDeep t.location), replay early symbols')) ∧
    ((∀ t ∈ statements, t.height ≤ limit) →
      symbols.run ((program statements l).run limit) = symbols.run (unlimitedAll statements)) ∧
    ∀ limit', limit ≤ limit' →
      (∀ place, (symbols.run ((program statements l).run limit)).1 ≠
        .error (.nestingTooDeep place)) →
      symbols.run ((program statements l).run limit') =
        symbols.run ((program statements l).run limit) := by
  have hshallow {limit : Nat} (h : ∀ depth, .node depth ∈ trailAll statements symbols →
      depth ≤ limit) :
      symbols.run ((program statements l).run limit) = symbols.run (unlimitedAll statements) := by
    rw [run, Symbols.run, Symbols.run, evaluateAll_of_shallow ((cutAt_eq_none_iff _).mpr h)]
  refine ⟨replay_trailAll statements symbols, ?_, ?_, ?_⟩
  · cases hcut : cutAt limit (trailAll statements symbols) with
    | none =>
      have hnodes := (cutAt_eq_none_iff _).mp hcut
      exact Or.inl ⟨hnodes, hshallow hnodes⟩
    | some marks =>
      obtain ⟨before, t, after, values, symbols', early, hsplit, hbefore, hnone, hown, hrun⟩ :=
        evaluateAll_of_deep hcut
      obtain ⟨depth, late, htrail, hdepth, hearly⟩ := exists_of_cutAt hown
      refine Or.inr ⟨before, t, after, values, symbols', early, depth, late, hsplit,
        Symbols.run_of_ok hbefore, (cutAt_eq_none_iff _).mp hnone, htrail, hdepth, hearly, ?_⟩
      rw [run, Symbols.run_of_error hrun]
  · intro hheight
    exact hshallow fun depth hd => depth_le_of_mem_trailAll hheight hd
  · intro limit' hle hnot
    have hnodes : ∀ depth, .node depth ∈ trailAll statements symbols → depth ≤ limit := by
      apply (cutAt_eq_none_iff _).mp
      cases hcut : cutAt limit (trailAll statements symbols) with
      | none => rfl
      | some marks =>
        obtain ⟨before, t, after, values, symbols', early, -, -, -, -, hrun⟩ :=
          evaluateAll_of_deep hcut
        refine absurd ?_ (hnot t.location)
        rw [run, Symbols.run_of_error hrun]
    rw [hshallow hnodes, hshallow fun depth hd => Nat.le_trans (hnodes depth hd) hle]

/-- With four nodes allowed, `y` and `a` are assigned before the factors of `p * p` lie too deep;
the pending `b` and `z` are not, nor is `c` behind them. With five the run is the one without
limit. -/
theorem run_cut_short_pending :
    let p := number Symbols.pi .origin
    let first := assignment ['y'] p ⟨0, 0⟩
    let second := assignment ['z'] (operation .sum (assignment ['a'] p ⟨1, 4⟩)
      (assignment ['b'] (operation .product p p ⟨1, 9⟩) ⟨1, 8⟩) ⟨1, 6⟩) ⟨1, 0⟩
    let third := assignment ['c'] p ⟨2, 0⟩
    let outcome := fun limit => Symbols.run ⟨[]⟩ ((program [first, second, third] .origin).run limit)
    (∃ before t after values symbols' early depth late,
      [first, second, third] = before ++ t :: after ∧
      Symbols.run ⟨[]⟩ (unlimitedAll before) = (.ok values, symbols') ∧
      (∀ d, .node d ∈ trailAll before ⟨[]⟩ → d ≤ 4) ∧
      t.trail 1 symbols' = early ++ .node depth :: late ∧ 4 < depth ∧
      (∀ d, .node d ∈ early → d ≤ 4) ∧
      outcome 4 = (.error (.nestingTooDeep t.location), replay early symbols')) ∧
    outcome 4 = (.error (.nestingTooDeep ⟨1, 0⟩),
      ⟨[(['y'], Symbols.pi), (['a'], Symbols.pi)]⟩) ∧
    outcome 9 = outcome 5 := by
  intro p first second third outcome
  have hfour : outcome 4 = (.error (.nestingTooDeep ⟨1, 0⟩),
      ⟨[(['y'], Symbols.pi), (['a'], Symbols.pi)]⟩) := rfl
  obtain ⟨-, hcut, -, -⟩ := run_cut_short [first, second, third] .origin ⟨[]⟩ 4
  obtain ⟨-, -, -, hraise⟩ := run_cut_short [first, second, third] .origin ⟨[]⟩ 5
  refine ⟨?_, hfour, hraise 9 (by decide) ?_⟩
  · rcases hcut with ⟨-, hrun⟩ | hdeep
    · cases congrArg Prod.fst (hfour.symm.trans hrun)
    · exact hdeep
  · intro place hplace
    cases hplace

end Tree

end Calculator
