import EntityScript.Value.Conversion

/-!
Operators on values.  Equality and the logical operators take any values; all others
refuse unset, and take numbers, vectors and texts in the combinations listed here.
-/

namespace EntityScript.Value

/-- What two values that are not unset have in common under an operator, if anything. -/
def combine? : BinaryOp → Value → Value → Option Value
  | .add, number a, number b => some (number (a + b))
  | .sub, number a, number b => some (number (a - b))
  | .mul, number a, number b => some (number (a * b))
  | .div, number a, number b => some (number (a / b))
  | .mod, number a, number b => some (number (Number.remainder a b))
  | .add, text a, right => some (text (a ++ right.display))
  | .add, left, text b => some (text (left.display ++ b))
  | .add, vector a, vector b => some (vector (a + b))
  | .sub, vector a, vector b => some (vector (a - b))
  | .mul, vector a, number b => some (vector (a.scale b))
  | .mul, number a, vector b => some (vector (b.scale a))
  | .div, vector a, number b => some (vector (a.shrink b))
  | .lt, number a, number b => some (bool (a < b))
  | .gt, number a, number b => some (bool (b < a))
  | .le, number a, number b => some (bool (a ≤ b))
  | .ge, number a, number b => some (bool (b ≤ a))
  | .lt, text a, text b => some (bool (a < b))
  | .gt, text a, text b => some (bool (b < a))
  | .le, text a, text b => some (bool (!(b < a)))
  | .ge, text a, text b => some (bool (!(a < b)))
  | _, _, _ => none

def binary (op : BinaryOp) (left right : Value) : Attempt Value :=
  match op with
  | .eq => .ok (bool (left.equals right))
  | .ne => .ok (bool (!left.equals right))
  | .and => .ok (if left.holds then right else left)
  | .or => .ok (if left.holds then left else right)
  | _ =>
      if left = unset ∨ right = unset then .error .unsetArithmetic
      else
        match combine? op left right with
        | some value => .ok value
        | none => .error (.typeMismatch (.operands op left.kind right.kind))

def unary (op : UnaryOp) (operand : Value) : Attempt Value :=
  match op with
  | .not => .ok (bool (!operand.holds))
  | .neg =>
      match operand with
      | number value => .ok (number (-value))
      | vector value => .ok (vector (-value))
      | unset => .error .unsetArithmetic
      | other => other.mismatch .number

end EntityScript.Value
