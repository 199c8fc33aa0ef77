import Calculator.Proofs.Composition

/-! How the comparisons of two numbers go together. Numbers of which neither exceeds the other are
the same, up to the sign of zero. Their difference is zero, which is within the tolerance, unless
they are infinite: then the difference is no number, and they do not count as equal. -/

set_option autoImplicit false

namespace Calculator

open Float.Model (UnpackedFloat)
open Float.Model.UnpackedFloat (Sign)

/-- Two numbers at the same place in the order. -/
inductive Tied : UnpackedFloat → UnpackedFloat → Prop
  | zeros (sign sign' : Sign) : Tied (.zero sign) (.zero sign')
  | finite (sign : Sign) (m : Nat) (e : Int) (hm : 0 < m) :
      Tied (.finite sign m e hm) (.finite sign m e hm)
  | infinite (sign : Sign) : Tied (.infinity sign) (.infinity sign)

theorem compare_swap (p q : UnpackedFloat) : q.compare p = (p.compare q).map Ordering.swap := by
  cases p with
  | notANumber => cases q <;> rfl
  | zero sign =>
    cases q with
    | infinity sign' => cases sign' <;> rfl
    | finite sign' m e hm => cases sign' <;> rfl
    | notANumber | zero => rfl
  | infinity sign =>
    cases q with
    | infinity sign' => cases sign <;> cases sign' <;> rfl
    | notANumber | zero | finite => cases sign <;> rfl
  | finite sign m e hm =>
    cases q with
    | infinity sign' => cases sign <;> cases sign' <;> rfl
    | finite sign' m' e' hm' =>
      cases sign <;> cases sign' <;>
        simp [UnpackedFloat.compare, Ordering.swap_then, Int.compare_swap, Nat.compare_swap]
    | notANumber | zero => cases sign <;> rfl

namespace Tied

variable {p q : UnpackedFloat} {x y : Float}

theorem of_compare (h : p.compare q = some .eq) : Tied p q := by
  cases p with
  | notANumber => cases h
  | zero sign =>
    cases q with
    | zero sign' => exact .zeros sign sign'
    | notANumber => cases h
    | infinity sign' => cases sign' <;> cases h
    | finite sign' m e hm => cases sign' <;> cases h
  | infinity sign =>
    cases q with
    | infinity sign' =>
      obtain rfl : sign = sign' := by cases sign <;> cases sign' <;> first | rfl | cases h
      exact .infinite sign
    | notANumber | zero | finite => cases sign <;> cases h
  | finite sign m e hm =>
    cases q with
    | finite sign' m' e' hm' =>
      obtain ⟨rfl, rfl, rfl⟩ : sign = sign' ∧ e = e' ∧ m = m' := by
        cases sign <;> cases sign' <;> simp_all [UnpackedFloat.compare]
      exact .finite sign m e hm
    | infinity sign' => cases sign <;> cases sign' <;> cases h
    | notANumber | zero => cases sign <;> cases h

theorem of_unpacked_le (h : p.le q = true) (h' : q.le p = true) : Tied p q := by
  apply of_compare
  rw [UnpackedFloat.le] at h h'
  rw [compare_swap p q] at h'
  cases horder : p.compare q with
  | none =>
    rw [horder] at h
    cases h
  | some order =>
    rw [horder] at h h'
    cases order with
    | eq => rfl
    | lt => cases h'
    | gt => cases h

theorem of_le (h : x ≤ y) (h' : y ≤ x) : Tied x.toModel.unpack y.toModel.unpack := by
  apply of_unpacked_le
  · exact of_decide_eq_true h
  · exact of_decide_eq_true h'

/-- The difference is a zero, or no number if both are infinite. -/
theorem sub_cases (h : Tied p q) :
    (p.isFinite ∧ q.isFinite ∧ ∃ sign, UnpackedFloat.sub .binary64 p q = .zero sign) ∨
    (p.isInf ∧ q.isInf ∧ UnpackedFloat.sub .binary64 p q = .notANumber) := by
  cases h with
  | zeros sign sign' =>
    refine Or.inl ⟨rfl, rfl, ?_⟩
    rw [UnpackedFloat.sub]
    split
    · exact ⟨sign, rfl⟩
    · exact ⟨.positive, rfl⟩
  | finite sign m e hm =>
    refine Or.inl ⟨rfl, rfl, .positive, ?_⟩
    simp [UnpackedFloat.sub, UnpackedFloat.normalize]
  | infinite sign =>
    refine Or.inr ⟨rfl, rfl, ?_⟩
    cases sign <;> rfl

end Tied

namespace Operator

theorem truth_eq_one_iff (b : Bool) : truth b = 1.0 ↔ b = true := by
  cases b <;> decide

/-- Numbers that do not exceed each other are equal, unless they are infinite. -/
theorem equal_of_le {x y : Float} (h : x ≤ y) (h' : y ≤ x) :
    (x.isFinite ∧ y.isFinite ∧ equal.value x y = .ok 1.0) ∨
    (x.isInf ∧ y.isInf ∧ equal.value x y = .ok 0.0) := by
  have habs (difference : UnpackedFloat)
      (hsub : UnpackedFloat.sub .binary64 x.toModel.unpack y.toModel.unpack = difference) :
      equal.value x y =
        .ok (truth (decide ((Float.ofModel (.pack difference)).abs < tolerance))) := by
    rw [← hsub]
    rfl
  rcases (Tied.of_le h h').sub_cases with ⟨hx, hy, sign, hsub⟩ | ⟨hx, hy, hsub⟩
  · refine Or.inl ⟨hx, hy, ?_⟩
    rw [habs _ hsub]
    cases sign <;> decide
  · refine Or.inr ⟨hx, hy, ?_⟩
    rw [habs _ hsub]
    decide

end Operator

namespace Source

/-- Two sources in parentheses with a spaced operator between them. -/
def compared (a : Text) (op : Operator) (b : Text) : Text :=
  ['('] ++ a ++ [')', ' '] ++ op.spelling ++ [' ', '('] ++ b ++ [')']

variable {a b : Text} {x y : Tree} {n : Nat} {op : Operator} {symbols : Symbols} {u v : Float}

theorem Expression.evaluate_compared (ha : Expression a x n) (hb : Expression b y n)
    (hn : n < maxDepth) (hop : op ∈ Operator.known) (hu : (evaluate a symbols).1 = .ok [u])
    (hv : (evaluate b symbols).1 = .ok [v]) {z : Float} (hz : op.value u v = .ok z) :
    evaluate (compared a op b) symbols = (.ok [z], symbols) := by
  have hsource : compared a op b = compose a [' '] op [' '] b := by
    simp [compared, compose]
  obtain ⟨base, l, hparse⟩ := ha.parse_compose hb hn hop blanks_space blanks_space
  have happlies := ha.applies hb (Nat.le_of_lt hn) hop hparse (x.unplaced_shift _).symm
    (y.unplaced_shift _).symm symbols
  rw [hsource]
  exact happlies.evaluate_eq hu hv hz

/-- Expressions that compare as at most and as at least each other have finite values and are equal,
or they have infinite values and are not. -/
theorem comparisons_agree_unless_infinite (a b : Text) (x y : Tree) (symbols : Symbols) (u v : Float)
    (ha : Expression a x 63) (hb : Expression b y 63) (hu : (evaluate a symbols).1 = .ok [u])
    (hv : (evaluate b symbols).1 = .ok [v])
    (hle : (evaluate (compared a .lessEqual b) symbols).1 = .ok [1.0])
    (hge : (evaluate (compared a .greaterEqual b) symbols).1 = .ok [1.0]) :
    (u.isFinite ∧ v.isFinite ∧ evaluate (compared a .equal b) symbols = (.ok [1.0], symbols)) ∨
    (u.isInf ∧ v.isInf ∧ evaluate (compared a .equal b) symbols = (.ok [0.0], symbols)) := by
  have hresult {op : Operator} {z : Float} (hop : op ∈ Operator.known)
      (hz : op.value u v = .ok z) : evaluate (compared a op b) symbols = (.ok [z], symbols) :=
    ha.evaluate_compared hb (by decide) hop hu hv hz
  have huv : u ≤ v := by
    rw [hresult (by decide) rfl] at hle
    have hone := List.head_eq_of_cons_eq (Except.ok.inj hle)
    exact of_decide_eq_true ((Operator.truth_eq_one_iff _).mp hone)
  have hvu : v ≤ u := by
    rw [hresult (by decide) rfl] at hge
    have hone := List.head_eq_of_cons_eq (Except.ok.inj hge)
    exact of_decide_eq_true ((Operator.truth_eq_one_iff _).mp hone)
  rcases Operator.equal_of_le huv hvu with ⟨hfu, hfv, hone⟩ | ⟨hiu, hiv, hzero⟩
  · exact Or.inl ⟨hfu, hfv, hresult (by decide) hone⟩
  · exact Or.inr ⟨hiu, hiv, hresult (by decide) hzero⟩

/-- The two zeros are on a par, and equal. -/
theorem comparisons_agree_on_zeros :
    let symbols : Symbols := ⟨[(['x'], Float.ofBits 0x8000000000000000), (['y'], Float.ofBits 0)]⟩
    let x := Tree.identifier ['x'] ⟨0, 0⟩
    let y := Tree.identifier ['y'] ⟨0, 1⟩
    Expression ['x'] x 63 ∧ Expression "(y)".toList y 63 ∧
    (evaluate ['x'] symbols).1 = .ok [Float.ofBits 0x8000000000000000] ∧
    (evaluate "(y)".toList symbols).1 = .ok [Float.ofBits 0] ∧
    (evaluate (compared ['x'] .lessEqual "(y)".toList) symbols).1 = .ok [1.0] ∧
    (evaluate (compared ['x'] .greaterEqual "(y)".toList) symbols).1 = .ok [1.0] ∧
    evaluate (compared ['x'] .equal "(y)".toList) symbols = (.ok [1.0], symbols) := by
  intro symbols x y
  obtain ⟨hparse, hscan, hparse', hscan'⟩ :
      parse ['x'] = .ok (.program [.identifier ['x'] ⟨0, 0⟩] .origin) ∧
      Token.scan ['x'] = .ok [⟨.identifier, ['x'], 0, 0⟩] ∧
      parse "(y)".toList = .ok (.program [.identifier ['y'] ⟨0, 1⟩] .origin) ∧
      Token.scan "(y)".toList = .ok [⟨.leftParen, ['('], 0, 0⟩, ⟨.identifier, ['y'], 0, 1⟩,
        ⟨.rightParen, [')'], 0, 2⟩] := by
    refine ⟨?_, ?_, ?_, ?_⟩ <;> cbv
  have ha : Expression ['x'] x 63 := ⟨hparse, by simp [x], _, hscan, by decide⟩
  have hb : Expression "(y)".toList y 63 := ⟨hparse', by simp [y], _, hscan', by decide⟩
  have hu : (evaluate ['x'] symbols).1 = .ok [Float.ofBits 0x8000000000000000] :=
    congrArg Prod.fst (evaluate_single_ok hparse rfl)
  have hv : (evaluate "(y)".toList symbols).1 = .ok [Float.ofBits 0] :=
    congrArg Prod.fst (evaluate_single_ok hparse' rfl)
  have hle : (evaluate (compared ['x'] .lessEqual "(y)".toList) symbols).1 = .ok [1.0] :=
    congrArg Prod.fst (ha.evaluate_compared hb (by decide) (by decide) hu hv rfl)
  have hge : (evaluate (compared ['x'] .greaterEqual "(y)".toList) symbols).1 = .ok [1.0] :=
    congrArg Prod.fst (ha.evaluate_compared hb (by decide) (by decide) hu hv rfl)
  refine ⟨ha, hb, hu, hv, hle, hge, ?_⟩
  rcases comparisons_agree_unless_infinite _ _ x y symbols _ _ ha hb hu hv hle hge with h | h
  · exact h.2.2
  · exact absurd h.1 (by decide)

/-- An infinity does not exceed itself, and yet is not equal to itself. -/
theorem infinity_unequal_to_itself :
    let infinity := Float.ofBits 0x7ff0000000000000
    Expression "1e999".toList (.number infinity .origin) 63 ∧
    (evaluate "1e999".toList .builtin).1 = .ok [infinity] ∧
    (evaluate (compared "1e999".toList .lessEqual "1e999".toList) .builtin).1 = .ok [1.0] ∧
    (evaluate (compared "1e999".toList .greaterEqual "1e999".toList) .builtin).1 = .ok [1.0] ∧
    (evaluate (compared "1e999".toList .equal "1e999".toList) .builtin).1 = .ok [0.0] ∧
    (0.0 : Float) ≠ 1.0 := by
  have hscan : Token.scan "1e999".toList = .ok [⟨.number, "1e999".toList, 0, 0⟩] := by cbv
  have hvalue : Token.value ⟨.number, "1e999".toList, 0, 0⟩ = Float.ofBits 0x7ff0000000000000 := by
    decide +kernel
  have hparse : parse "1e999".toList =
      .ok (.program [.number (Token.value ⟨.number, "1e999".toList, 0, 0⟩) .origin] .origin) :=
    parse_of_scan (s := .comparison (.ofFactor (.number ⟨.number, "1e999".toList, 0, 0⟩ rfl))) hscan
      (by decide)
  intro infinity
  rw [hvalue] at hparse
  have ha : Expression "1e999".toList (.number infinity .origin) 63 :=
    ⟨hparse, by simp, _, hscan, by decide⟩
  have hu : (evaluate "1e999".toList .builtin).1 = .ok [infinity] :=
    congrArg Prod.fst (evaluate_single_ok hparse rfl)
  have hresult {op : Operator} {z : Float} (hop : op ∈ Operator.known)
      (hz : op.value infinity infinity = .ok z) :
      (evaluate (compared "1e999".toList op "1e999".toList) .builtin).1 = .ok [z] :=
    congrArg Prod.fst (ha.evaluate_compared ha (by decide) hop hu hu hz)
  refine ⟨ha, hu, hresult (by decide) ?_, hresult (by decide) ?_, hresult (by decide) ?_, ?_⟩
  all_goals decide

end Source

end Calculator
