import Lox.Store
import Lox.Text.Quoted

/-!
Values as a host inspects them: the kind of value around its parts, texts in quotes, and the names
of methods and fields in order.
-/

namespace Lox

def sortedNames (names : List String) : List String := names.mergeSort (· ≤ ·)

namespace Value

/-- The parts of a record by name, between braces. -/
def inspectRecord (name : String) (parts : List (String × String)) : String :=
  name ++ " \x7b " ++ String.intercalate ", " (parts.map fun (part, text) => part ++ ": " ++ text)
    ++ " \x7d"

def inspectNames (names : List String) : String :=
  "[" ++ String.intercalate ", " ((sortedNames names).map Text.inspect) ++ "]"

def inspectBool (b : Bool) : String := if b then "true" else "false"

def inspectFunction (f : Function) : String :=
  inspectRecord "Function"
    [("name", Text.inspect f.name), ("arity", toString f.arity),
     ("is_initializer", inspectBool f.isInitializer)]

def inspectNative (f : Native) : String :=
  inspectRecord "NativeFunction" [("name", Text.inspect f.name), ("arity", toString f.arity)]

def inspectClass (c : Class) : String :=
  let above := match c.superclass? with
    | some above => "Some(" ++ Text.inspect above.name ++ ")"
    | none => "None"
  inspectRecord "Class"
    [("name", Text.inspect c.name), ("superclass", above),
     ("methods", inspectNames c.own.methods.names)]

def inspectInstance (store : Store) (i : Instance) : String :=
  inspectRecord "Instance"
    [("class", Text.inspect i.ofClass.name), ("fields", inspectNames (store.fieldNames i))]

def inspect (store : Store) : Value → String
  | nil => "Nil"
  | bool b => "Bool(" ++ inspectBool b ++ ")"
  | number x => "Number(" ++ Decimal.inspectText x ++ ")"
  | string s => "String(" ++ Text.inspect s ++ ")"
  | function f => "Function(" ++ inspectFunction f ++ ")"
  | native f => "Native(" ++ inspectNative f ++ ")"
  | klass c => "Class(" ++ inspectClass c ++ ")"
  | object i => "Instance(" ++ inspectInstance store i ++ ")"

end Value
end Lox
