import Marshal.TypeExpr.Parser

/-!
# Errors of a schema

`kind` names the cause in one word, and `message` is the sentence for people.
-/

namespace Marshal

inductive SchemaError where
  | rootNotObject
  | descriptionNotObject (type : String)
  | fieldTypeNotString (type field : String)
  /-- The mark of reference types is no boolean. -/
  | referenceMarkNotBool (type : String)
  /-- A type string cannot be read. The whole string is kept, whichever part of it is at fault. -/
  | malformedType (fault : TypeExpr.Fault) (text : String)
  /-- A type has no conversion of its own that could be shared. -/
  | unsupported (type : String)
  | sharedNotArray
  | sharedNotString (index : Nat)
  | sharedComposite (text : String)
  deriving Repr, DecidableEq

namespace SchemaError

def kind : SchemaError → String
  | rootNotObject => "RootIsNotObject"
  | descriptionNotObject _ => "DescriptionIsNotObject"
  | fieldTypeNotString _ _ => "FieldTypeIsNotString"
  | referenceMarkNotBool _ => "IsRefMustBeBool"
  | malformedType .missing _ => "NoTypeInfo"
  | malformedType .noComma _ => "MissingCommaInDictionary"
  | malformedType .noClosing _ => "MissingClosingInDictionary"
  | unsupported _ => "UnsupportedPrimitive"
  | sharedNotArray => "SlaveInfoMustBeArray"
  | sharedNotString _ => "SlaveMustBeString"
  | sharedComposite _ => "SlaveMustBePrimitive"

def message : SchemaError → String
  | rootNotObject => "schema root is not an object"
  | descriptionNotObject type => "description of type '" ++ type ++ "' is not an object"
  | fieldTypeNotString type field =>
    "type of field '" ++ field ++ "' in '" ++ type ++ "' is not a string"
  | referenceMarkNotBool type => "'__is_ref' of type '" ++ type ++ "' must be a boolean"
  | malformedType .missing text => "no type information in '" ++ text ++ "'"
  | malformedType .noComma text => "missing comma in dictionary type '" ++ text ++ "'"
  | malformedType .noClosing text => "missing closing '>' in dictionary type '" ++ text ++ "'"
  | unsupported type => "unsupported primitive '" ++ type ++ "'"
  | sharedNotArray => "'__slaves' must be an array"
  | sharedNotString index =>
    "'__slaves' entry at index " ++ toString index ++ " is not a string"
  | sharedComposite text => "'__slaves' entry '" ++ text ++ "' is not a primitive type"

end SchemaError

/-- Reads a type string. -/
def TypeExpr.parse (text : String) : Except SchemaError TypeExpr :=
  match TypeExpr.parseChars text.toList with
  | .ok t => .ok t
  | .error fault => .error (.malformedType fault text)

end Marshal
