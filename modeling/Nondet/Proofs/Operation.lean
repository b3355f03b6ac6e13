import Nondet.Operation

/-!
# Operation — Laws

Operators compute plain values: whatever the operands are, the result of an operator is no function
(`UnaryOp.isFunction_apply`, `BinaryOp.isFunction_apply`).
-/

namespace Nondet

/-- What is no function is no closure. -/
theorem Value.asClosure?_of_isFunction {v : Value} (h : v.isFunction = false) :
    v.asClosure? = none := by
  cases v with
  | closure c => cases h
  | _ => rfl

theorem UnaryOp.isFunction_apply {op : UnaryOp} {v w : Value} (h : op.apply v = .ok w) :
    w.isFunction = false := by
  simp only [UnaryOp.apply] at h
  split at h <;> cases h <;> rfl

theorem BinaryOp.isFunction_onNumbers (op : BinaryOp) (x y : Float) :
    (op.onNumbers x y).isFunction = false := by
  cases op <;> rfl

theorem BinaryOp.isFunction_onStrings (op : BinaryOp) (s t : String) :
    (op.onStrings s t).isFunction = false := by
  cases op <;> rfl

theorem BinaryOp.isFunction_compute (op : BinaryOp) (left right : Value) :
    (op.compute left right).isFunction = false := by
  simp only [BinaryOp.compute]
  split
  · rfl
  · rfl
  · exact isFunction_onNumbers _ _ _
  · exact isFunction_onStrings _ _ _
  · rfl

theorem BinaryOp.isFunction_apply {op : BinaryOp} {left right w : Value}
    (h : op.apply left right = .ok w) : w.isFunction = false := by
  rw [BinaryOp.apply] at h
  split at h
  · cases h
  · cases h
    exact isFunction_compute op left right

theorem UnaryOp.asClosure?_apply {op : UnaryOp} {v w : Value} (h : op.apply v = .ok w) :
    w.asClosure? = none := Value.asClosure?_of_isFunction (isFunction_apply h)

theorem BinaryOp.asClosure?_apply {op : BinaryOp} {left right w : Value}
    (h : op.apply left right = .ok w) : w.asClosure? = none :=
  Value.asClosure?_of_isFunction (isFunction_apply h)

end Nondet
