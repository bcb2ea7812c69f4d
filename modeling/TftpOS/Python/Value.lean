import Mathlib.Data.Rat.Defs
import TftpOS.Lib.Dict

/-!
# Dynamic values and exceptions

JSON documents and TOML documents are trees of the same shape; they differ in the leaves TOML
adds (dates and times). `Value ι` is the tree with extra leaves `ι`, `Json` has none and
`Toml` has `DateTime`. Floats are exact rationals.

`PyExc` is a raised exception: its class and its message.
-/

namespace TftpOS

open Lib

/-- Values of the type `bytes`, such as the contents of a file. -/
abbrev Bytes := List UInt8

/-- Values of dynamically typed documents, with extra leaves `ι`. -/
inductive Value (ι : Type) where
  | null
  | bool (b : Bool)
  | int (n : ℤ)
  | float (q : ℚ)
  | str (s : String)
  | leaf (x : ι)
  | list (xs : List (Value ι))
  | dict (kvs : List (String × Value ι))

/-- A TOML date or time, as written. -/
structure DateTime where
  /-- The name of its class. -/
  cls : String
  /-- The text of the value. -/
  text : String

/-- JSON values. -/
abbrev Json := Value Empty

/-- TOML values. -/
abbrev Toml := Value DateTime

namespace Value

variable {ι : Type}

/-- The string a value is, if it is one. -/
def asStr : Value ι → Option String
  | .str s => some s
  | _ => none

/-- `d.get(key)` on the entries of a dict. -/
def lookup (key : String) (kvs : List (String × Value ι)) : Option (Value ι) :=
  (Dict.ofEntries kvs).get? key

/-- The truth value of a value. -/
def truthy : Value ι → Bool
  | .null => false
  | .bool b => b
  | .int n => n ≠ 0
  | .float q => q ≠ 0
  | .str s => s ≠ ""
  | .leaf _ => true
  | .list xs => !xs.isEmpty
  | .dict kvs => !kvs.isEmpty

/-- `isinstance(v, dict)`. -/
def isDict : Value ι → Bool
  | .dict _ => true
  | _ => false

/-- The name of the type of a value, given those of the extra leaves. -/
def typeName (leafName : ι → String) : Value ι → String
  | .null => "NoneType"
  | .bool _ => "bool"
  | .int _ => "int"
  | .float _ => "float"
  | .str _ => "str"
  | .leaf x => leafName x
  | .list _ => "list"
  | .dict _ => "dict"

/-- The name that the messages of the interpreter give the type of a TOML value. -/
def qualifiedTypeName : Toml → String := typeName fun d => "datetime." ++ d.cls

@[simp]
theorem asStr_eq_some_iff {v : Value ι} {s : String} : v.asStr = some s ↔ v = .str s := by
  cases v <;> simp [asStr]

end Value

/-- The exception classes the sources raise or catch. -/
inductive ExcClass where
  | valueError
  | typeError
  | keyError
  | attributeError
  | runtimeError
  | fileNotFoundError
  | isADirectoryError
  | notADirectoryError
  | fileExistsError
  | osError
  | calledProcessError
  | powerError
  deriving DecidableEq

/-- A raised exception. -/
structure PyExc where
  /-- Its class. -/
  cls : ExcClass
  /-- Its message. -/
  msg : String
  deriving DecidableEq

/-- The subclasses of `OSError`. -/
def ExcClass.isOSError : ExcClass → Bool
  | .fileNotFoundError | .isADirectoryError | .notADirectoryError | .fileExistsError
  | .osError => true
  | _ => false

end TftpOS
