import Segments.Attribute.Id

/-!
# Attribute updates

An update names an attribute, a rule and an operand. Evaluating it against the current value
gives the new value, or the reason why its condition does not hold.
-/

namespace Segments

/-- How an update combines its operand with the current value. -/
inductive UpdateRule where
  /-- Set the value in any case. -/
  | replace
  /-- Set the value if it is greater than the current one; no value is less than all. -/
  | replaceIfGreater
  /-- Set the value if the current one is the expected one. -/
  | replaceIfEquals (expected : AttributeValue)
  /-- Add the operand to the current value, no value counting as zero. -/
  | accumulate
  /-- Set the value if there is none yet. -/
  | setOnce
  deriving DecidableEq, Repr

/-- A requested change of one attribute. -/
structure Update where
  /-- The attribute to change. -/
  id : AttributeId
  /-- The combination rule. -/
  rule : UpdateRule
  /-- The operand. -/
  value : AttributeValue
  deriving DecidableEq, Repr

/-- Why an update does not apply. -/
inductive Refusal where
  /-- The operand does not exceed the current value. -/
  | notGreater (value current : AttributeValue)
  /-- The current value is not the expected one. -/
  | unexpected (expected found : AttributeValue)
  /-- The sum is out of range, or is the value that stands for none. -/
  | overflow (delta base : AttributeValue)
  /-- There is a value already. -/
  | alreadySet (current : AttributeValue)
  deriving DecidableEq, Repr

namespace UpdateRule

/-- The name of a rule in reports. -/
def name : UpdateRule → String
  | replace => "replace"
  | replaceIfGreater => "replace_if_greater"
  | replaceIfEquals _ => "replace_if_equals"
  | accumulate => "accumulate"
  | setOnce => "set_once"

/-- Whether a rule looks at the current value. -/
def needsCurrent : UpdateRule → Bool
  | replace => false
  | _ => true

end UpdateRule

/-- A value in a message, where no value has a name of its own. -/
def showValue (v : AttributeValue) : String :=
  if v = nullValue then "null" else toString v.toInt

namespace Refusal

/-- The wording of a refusal. -/
def message : Refusal → String
  | notGreater value current =>
    "value " ++ toString value.toInt ++ " is not greater than current value "
      ++ toString current.toInt
  | unexpected expected found =>
    "expected " ++ showValue expected ++ ", found " ++ showValue found
  | overflow delta base =>
    "accumulating " ++ toString delta.toInt ++ " onto " ++ toString base.toInt ++ " overflows"
  | alreadySet current => "already set to " ++ toString current.toInt

end Refusal

namespace Update

/-- The sum of two values, unless it is out of range or stands for no value. -/
def checkedSum? (base delta : AttributeValue) : Option AttributeValue :=
  let sum := base.toInt + delta.toInt
  if Int64.minValue.toInt < sum ∧ sum ≤ Int64.maxValue.toInt then some (Int64.ofInt sum) else none

/-- The new value of the attribute, or the reason why the condition does not hold. -/
def evaluate (u : Update) (current : AttributeValue) : Except Refusal AttributeValue :=
  match u.rule with
  | .replace => .ok u.value
  | .replaceIfGreater =>
    if current = nullValue ∨ current < u.value then .ok u.value
    else .error (.notGreater u.value current)
  | .replaceIfEquals expected =>
    if current = expected then .ok u.value else .error (.unexpected expected current)
  | .accumulate =>
    let base := if current = nullValue then 0 else current
    match checkedSum? base u.value with
    | some sum => .ok sum
    | none => .error (.overflow u.value base)
  | .setOnce =>
    if current = nullValue then .ok u.value else .error (.alreadySet current)

/-- An update that sets a value. -/
def replace (id : AttributeId) (value : AttributeValue) : Update := ⟨id, .replace, value⟩

/-- An update that adds to a value. -/
def accumulate (id : AttributeId) (delta : AttributeValue) : Update := ⟨id, .accumulate, delta⟩

end Update

end Segments
