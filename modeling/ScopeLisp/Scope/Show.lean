/-
ScopeLisp.Scope.Show — how values and scopes are shown.

A value has three texts: as printed, as a result (strings quoted), and as
named in messages (with its type).
-/
import ScopeLisp.Scope.Store
import ScopeLisp.Text.Quoted

namespace ScopeLisp

namespace ScopeKind

/-- The type of a scope as a value. -/
def typeName : ScopeKind → String
  | .ofClass _ => "class"
  | .ofInstance => "instance"
  | .ofModule _ => "module"
  | .global | .block | .activation => "scope"

/-- How a kind is shown in the outline of a scope. -/
def outline : ScopeKind → String
  | .global => "Global"
  | .block => "Block"
  | .activation => "Activation"
  | .ofClass name => "Class \x7b name: " ++ quoted name ++ " \x7d"
  | .ofInstance => "Instance"
  | .ofModule name => "Module \x7b name: " ++ quoted name ++ " \x7d"

end ScopeKind

namespace Store

/-- How a scope is printed. -/
def scopeText (st : Store) (id : ScopeId) : String :=
  match st.kind? id with
  | some (.ofClass name) => "<class " ++ name ++ ">"
  | some .ofInstance =>
    match st.className? id with
    | some name => "<" ++ name ++ " instance>"
    | none => "<instance>"
  | some (.ofModule name) => "<module " ++ name ++ ">"
  | some .global => "<global scope>"
  | some .block | some .activation | none => "<scope>"

/-- The type of a value. -/
def typeName (st : Store) : Value → String
  | .undefined => "undefined"
  | .null => "null"
  | .bool _ => "boolean"
  | .number _ => "number"
  | .str _ => "string"
  | .native _ => "native function"
  | .closure _ => "function"
  | .scope id => ((st.kind? id).map ScopeKind.typeName).getD "scope"

/-- How a value is printed. -/
def display (st : Store) : Value → String
  | .undefined => "undefined"
  | .null => "null"
  | .bool true => "true"
  | .bool false => "false"
  | .number value => formatNumber value
  | .str value => value
  | .native f => "<native " ++ f.name ++ ">"
  | .closure f => f.text
  | .scope id => st.scopeText id

/-- How a value is shown as a result: as it is printed, but strings between
quotes. -/
def inspect (st : Store) : Value → String
  | .str value => quoted value
  | value => st.display value

/-- How messages name a value. -/
def describe (st : Store) : Value → String
  | .undefined => "undefined"
  | .null => "null"
  | .str value => "string " ++ quoted value
  | value => st.typeName value ++ " " ++ st.display value

/-- What a host function is told of a value. -/
def told (st : Store) (v : Value) : HostArgument :=
  match v with
  | .undefined => .datum .undefined
  | .null => .datum .null
  | .bool value => .datum (.bool value)
  | .number value => .datum (.number value)
  | .str value => .datum (.str value)
  | .native f => .object (st.typeName v) (st.display v) f.serial
  | .closure f => .object (st.typeName v) (st.display v) f.serial
  | .scope id => .object (st.typeName v) (st.display v) id

/-- The outline of a scope: its kind, its own names, and whether it has a
parent. Values are left out, since they can lead back to the scope. -/
def outline (st : Store) (id : ScopeId) : String :=
  match st.scope? id with
  | none => ""
  | some s =>
    "Environment \x7b kind: " ++ s.kind.outline ++ ", names: ["
      ++ ", ".intercalate (s.record.names.map quoted) ++ "], has_parent: "
      ++ (if s.parent.isSome then "true" else "false") ++ " \x7d"

end Store

end ScopeLisp
