import PageTemplate.Expression.Value

/-! # Host data

Data that a program hands over as the model of a template, before it is a value. Integers have
any size, and records may have keys of any kind; both are settled when data becomes a value.
-/

namespace PageTemplate

/-- Data of the host. -/
inductive Data where
  | null
  | bool (b : Bool)
  | int (i : Int)
  | float (x : Float)
  | text (s : String)
  | sequence (items : List Data)
  | record (entries : List (Data × Data))

instance : Inhabited Data := ⟨.null⟩

namespace Data

/-- The key that an entry of a record is stored under: text as it stands, numbers and truth
values as they are written. -/
def key? : Data → Option String
  | .text s => some s
  | .int i => some (toString i)
  | .bool b => some (if b then "true" else "false")
  | _ => none

mutual
/-- The value that stands for the data. An integer beyond sixty-four bits becomes the nearest
float, and a float that is not finite becomes null. -/
def toValue : Data → Except ExpressionError Value
  | .null => .ok .null
  | .bool b => .ok (.bool b)
  | .int i => .ok (if -2 ^ 63 ≤ i ∧ i < 2 ^ 63 then .int i else .float (Float.ofInt i))
  | .float x => .ok (if x.isNaN || x.isInf then .null else .float x)
  | .text s => .ok (.string s)
  | .sequence items => do return .list (← toValues items)
  | .record entries => do return .map (Keyed.ofList (← toEntries entries))
def toValues : List Data → Except ExpressionError (List Value)
  | [] => .ok []
  | item :: items => do return (← item.toValue) :: (← toValues items)
def toEntries : List (Data × Data) → Except ExpressionError (List (String × Value))
  | [] => .ok []
  | (key, item) :: entries => do
    match key.key? with
    | none => throw (.conversion "key must be a string")
    | some key => return (key, ← item.toValue) :: (← toEntries entries)
end

end Data

end PageTemplate
