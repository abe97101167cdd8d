import SqlGen.Value

/-!
# Host methods

A method of the program that a query may call.  Two methods are the same when all five
parts of the signature are.  A call is resolved by three of them: the declaring
type, the name and the types of the parameters.
-/

namespace SqlGen

structure Method where
  declaringType : String
  name : String
  parameters : List HostType
  returnType : HostType
  /-- It is called without an instance. -/
  isStatic : Bool
deriving DecidableEq, Hashable, Repr

/-- What a call says of the method it wants. -/
structure MethodKey where
  /-- The type that declares the method. -/
  declaringType : String
  name : String
  parameters : List HostType
deriving DecidableEq, Hashable, Repr

namespace Method

/-- The key a method is resolved by. -/
def key (m : Method) : MethodKey := ⟨m.declaringType, m.name, m.parameters⟩

/-- A method as errors show it. -/
def display (m : Method) : String :=
  m.declaringType ++ "." ++ m.name ++ "(" ++
    String.intercalate ", " (m.parameters.map HostType.name) ++ ")"

/-! ## Methods of every provider -/

/-- A method of a string without arguments. -/
def ofString (name : String) : Method := ⟨"String", name, [], .string, false⟩

/-- A function of numbers, whose arguments and result have one type. -/
def ofMath (name : String) (arity : Nat) (t : HostType) : Method :=
  ⟨"Math", name, List.replicate arity t, t, true⟩

def toUpper : Method := ofString "ToUpper"

def toLower : Method := ofString "ToLower"

/-- The string without white space at its ends. -/
def trim : Method := ofString "Trim"

/-- A part of the string, by its first position, counted from zero, and its length. -/
def substring : Method := ⟨"String", "Substring", [.int32, .int32], .string, false⟩

/-- The absolute value of an integer. -/
def absInt : Method := ofMath "Abs" 1 .int64

/-- The absolute value of a real. -/
def absReal : Method := ofMath "Abs" 1 .double

def maxInt : Method := ofMath "Max" 2 .int64

def minInt : Method := ofMath "Min" 2 .int64

/-- The nearest whole number. -/
def roundReal : Method := ofMath "Round" 1 .double

def builtIn : List Method :=
  [toUpper, toLower, trim, substring, absInt, absReal, maxInt, minInt, roundReal]

end Method

end SqlGen
