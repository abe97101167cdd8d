/-!
# Host types, store mappings and values

A value of a program has a host type, and a database column a store type.  A
`TypeMapping` ties the two.  A `Value` is a constant of a query, a parameter or
the content of a column.  Reals are kept as their 64 bits, so two values are
equal exactly when every bit is: a NaN equals itself and the two zeros differ.
-/

namespace SqlGen

/-- The type of a value on the side of the program. -/
inductive HostType where
  | boolean
  | int32
  | int64
  | double
  | decimal
  | string
  | char
  | bytes
  | dateTime
  | guid
  /-- The receiver of functions that only one database has. -/
  | dbFunctions
  | object
deriving DecidableEq, Hashable, Repr

/-- The name a host type is shown by. -/
def HostType.name : HostType → String
  | .boolean => "Boolean"
  | .int32 => "Int32"
  | .int64 => "Int64"
  | .double => "Double"
  | .decimal => "Decimal"
  | .string => "String"
  | .char => "Char"
  | .bytes => "Byte[]"
  | .dateTime => "DateTime"
  | .guid => "Guid"
  | .dbFunctions => "DbFunctions"
  | .object => "Object"

def HostType.all : List HostType :=
  [.boolean, .int32, .int64, .double, .decimal, .string, .char, .bytes, .dateTime, .guid,
    .dbFunctions, .object]

/-- The host type of a name. -/
def HostType.ofName? (name : String) : Option HostType :=
  HostType.all.find? fun t => t.name == name

theorem HostType.mem_all (t : HostType) : t ∈ HostType.all := by
  cases t <;> decide

/-- Names tell host types apart. -/
theorem HostType.ofName?_name (t : HostType) : HostType.ofName? t.name = some t := by
  cases t <;> decide

/-- The store type that holds values of a host type. -/
structure TypeMapping where
  /-- The type in the words of the database. -/
  storeType : String
  hostType : HostType
deriving DecidableEq, Hashable, Repr

inductive Value where
  | null
  | boolean (b : Bool)
  | integer (i : Int64)
  /-- A binary floating-point number, as its bits. -/
  | real (bits : UInt64)
  | text (s : String)
  | bytes (content : List UInt8)
deriving DecidableEq, Hashable

def Value.isNull : Value → Bool
  | .null => true
  | _ => false

/-- The host type a value has if nothing else says one. -/
def Value.hostType : Value → HostType
  | .null => .object
  | .boolean _ => .boolean
  | .integer _ => .int64
  | .real _ => .double
  | .text _ => .string
  | .bytes _ => .bytes

@[simp] theorem Value.isNull_eq_true {v : Value} : v.isNull = true ↔ v = .null := by
  cases v <;> simp [Value.isNull]

end SqlGen
