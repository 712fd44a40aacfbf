import MicroReticulum.Library.Objects
import MicroReticulum.Library.Prog
import MicroReticulum.Wire.Bytes

/-!
# Field values and field declarations

`Value` carries its type as its constructor, where the source has a type tag beside one member for
each kind of payload; the `as_` accessors read another kind's member as zero or empty, as there.
A `Field` is what a registration call declares. Its setter and getter belong to the application:
they work on the runtime state `R`, the setter may fail or throw, and nothing else is known of them.

Integers are 64 bits wide, identifiers 16. Strings are byte strings; where the source passes one as
a C string, what follows a zero byte is lost.
-/

namespace MicroReticulum.Provisioning

open MicroReticulum Library

/-- `nid_t`, a namespace id. -/
abbrev NamespaceId : Type := UInt16

/-- `fid_t`, a field id. -/
abbrev FieldId : Type := UInt16

/-- `Provisioning::Type` -/
inductive FieldType where
  | none | bool | int | float | string | bytes | enum | bytesList | void
  deriving DecidableEq, Repr

namespace FieldType

def code : FieldType → UInt8
  | .none => 0 | .bool => 1 | .int => 2 | .float => 3 | .string => 4 | .bytes => 5
  | .enum => 6 | .bytesList => 7 | .void => 8

end FieldType

/-- `Provisioning::Value` -/
inductive Value where
  | none
  | bool (b : Bool)
  | int (i : Int64)
  | float (d : Double)
  | string (s : Bytes)
  | bytes (b : Bytes)
  | enum (i : Int64)
  | bytesList (l : List Bytes)
  | void
  deriving DecidableEq

namespace Value

def type : Value → FieldType
  | .none => .none | .bool _ => .bool | .int _ => .int | .float _ => .float
  | .string _ => .string | .bytes _ => .bytes | .enum _ => .enum
  | .bytesList _ => .bytesList | .void => .void

def isNone (v : Value) : Bool := v.type = .none

def asInt : Value → Int64
  | .bool b => if b then 1 else 0
  | .int i => i
  | .enum i => i
  | _ => 0

def asBool (v : Value) : Bool := v.asInt ≠ 0

def asFloat : Value → Double
  | .float d => d
  | _ => .fin 0

def asString : Value → Bytes
  | .string s => s
  | _ => []

def asBytes : Value → Bytes
  | .bytes b => b
  | _ => []

def asBytesList : Value → List Bytes
  | .bytesList l => l
  | _ => []

/-- `Value::operator==`; only numbers that compare equal differ from equality. -/
def eq : Value → Value → Bool
  | .float a, .float b => a.eq b
  | a, b => a = b

end Value

/-- `Constraint` -/
structure Constraint where
  hasRange : Bool := false
  imin : Int64 := 0
  imax : Int64 := 0
  fmin : Double := .fin 0
  fmax : Double := .fin 0
  maxLen : Nat := 0
  elementSize : Nat := 0
  maxCount : Nat := 0
  enumValues : List Int64 := []
  enumLabels : List Bytes := []
  deriving DecidableEq

/-! ## Flags -/

def ffLiveApply : UInt8 := 1
def ffRebootRequired : UInt8 := 2
def ffReadOnly : UInt8 := 4
def ffSecret : UInt8 := 8
def ffWriteOnly : UInt8 := 16

/-- A registered field; `R` is the runtime its setter and getter work on. -/
structure Field (R : Type) where
  id : FieldId
  name : Bytes
  type : FieldType
  flags : UInt8
  constraint : Constraint := {}
  defaultValue : Value
  setter : Option (Value → Prog String R Bool) := none
  getter : Option (R → Value) := none

namespace Field

variable {R : Type}

/-- `Field::has_flag` -/
def hasFlag (f : Field R) (flag : UInt8) : Bool := f.flags &&& flag ≠ 0

/-- `Field::validate` -/
def validate (f : Field R) (v : Value) : Bool :=
  if v.type ≠ f.type then false
  else match f.type with
    | .none => false
    | .bool => true
    | .int => !(f.constraint.hasRange
        && (v.asInt < f.constraint.imin || f.constraint.imax < v.asInt))
    | .float => !(f.constraint.hasRange
        && (v.asFloat.lt f.constraint.fmin || f.constraint.fmax.lt v.asFloat))
    | .string => !(0 < f.constraint.maxLen && f.constraint.maxLen < v.asString.length)
    | .bytes => !(0 < f.constraint.maxLen && f.constraint.maxLen < v.asBytes.length)
    | .enum => f.constraint.enumValues.isEmpty || f.constraint.enumValues.contains v.asInt
    | .bytesList =>
      !(0 < f.constraint.maxCount && f.constraint.maxCount < v.asBytesList.length)
        && (f.constraint.elementSize = 0
          || v.asBytesList.all fun e => e.length = f.constraint.elementSize)
    | .void => true

/-- A valid value has the field's type. -/
theorem type_of_validate {f : Field R} {v : Value} (h : f.validate v = true) : v.type = f.type := by
  unfold validate at h
  by_contra hne
  rw [if_pos hne] at h
  cases h

end Field

end MicroReticulum.Provisioning
