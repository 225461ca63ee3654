import BitcoinNetwork.Loops.Results

/-!
# Dispatch of requests (messages/rpc/dispatcher.ipp, types.hpp, method.hpp)

The arguments of a method are taken off an array by their positions or off an object by
their names, and the handlers of the method are notified of them.
-/

namespace BitcoinNetwork.Rpc.Dispatcher

/-- The errors of the dispatch. -/
inductive Error
  | unexpectedMethod
  | unexpectedType
  | extraPositional
  | extraNamed
  | missingArray
  | missingObject
  | missingParameter
  deriving DecidableEq

/-! ### Values (messages/rpc/model.hpp) -/

/-- A shared pointer, by the type that is erased from it. -/
structure Pointer where
  type : String
  address : ℕ
  deriving DecidableEq

/-- `value_t`, over the documents that are embedded. -/
inductive Value (Json : Type)
  | null
  | boolean (flag : Bool)
  | number (number : Float)
  | string (text : String)
  | array (values : List (Value Json))
  | object (members : List (String × Value Json))
  | int8 (number : Int8)
  | int16 (number : Int16)
  | int32 (number : Int32)
  | int64 (number : Int64)
  | uint8 (number : UInt8)
  | uint16 (number : UInt16)
  | uint32 (number : UInt32)
  | uint64 (number : UInt64)
  | any (pointer : Option Pointer)
  | json (document : Json)

variable {Json : Type}

/-- `object_t`, the keys of which are distinct. -/
structure Object (Json : Type) where
  members : List (String × Value Json)
  distinct : (members.map Prod.fst).Nodup

namespace Object

def find (object : Object Json) (name : String) : Option (Value Json) := object.members.lookup name

def size (object : Object Json) : ℕ := object.members.length

def empty : Object Json := { members := [], distinct := .nil }

end Object

/-- `params_t`. -/
inductive Params (Json : Type)
  | value (value : Value Json)
  | array (values : List (Value Json))
  | object (object : Object Json)

structure Request (Json : Type) where
  method : String
  params : Option (Params Json)

/-! ### Types (messages/rpc/types.hpp) -/

/-- `internal_t`: the alternatives of a value, any value, or what a pointer is to. -/
inductive Internal
  | null
  | boolean
  | number
  | string
  | array
  | object
  | int8
  | int16
  | int32
  | int64
  | uint8
  | uint16
  | uint32
  | uint64
  | any
  | json
  | value
  | pointer (type : String)
  deriving DecidableEq

/-- The value holds the type. -/
def Internal.holds : Internal → Value Json → Bool
  | .null, .null => true
  | .boolean, .boolean _ => true
  | .number, .number _ => true
  | .string, .string _ => true
  | .array, .array _ => true
  | .object, .object _ => true
  | .int8, .int8 _ => true
  | .int16, .int16 _ => true
  | .int32, .int32 _ => true
  | .int64, .int64 _ => true
  | .uint8, .uint8 _ => true
  | .uint16, .uint16 _ => true
  | .uint32, .uint32 _ => true
  | .uint64, .uint64 _ => true
  | .any, .any _ => true
  | .json, .json _ => true
  | .value, _ => true
  | .pointer erased, .any (some held) => held.type = erased
  | _, _ => false

/-- The specializations of `optional`, by their default values. -/
inductive Default
  | array
  | object
  | value
  | int8 (number : Int8)
  | int16 (number : Int16)
  | int32 (number : Int32)
  | int64 (number : Int64)
  | uint8 (number : UInt8)
  | uint16 (number : UInt16)
  | uint32 (number : UInt32)
  | uint64 (number : UInt64)
  | number (number : Float)
  | boolean (flag : Bool)
  | string (text : String)

namespace Default

def type : Default → Internal
  | array => .array
  | object => .object
  | value => .value
  | int8 _ => .int8
  | int16 _ => .int16
  | int32 _ => .int32
  | int64 _ => .int64
  | uint8 _ => .uint8
  | uint16 _ => .uint16
  | uint32 _ => .uint32
  | uint64 _ => .uint64
  | number _ => .number
  | boolean _ => .boolean
  | string _ => .string

def defaultValue : Default → Value Json
  | array => .array []
  | object => .object []
  | value => .null
  | int8 n => .int8 n
  | int16 n => .int16 n
  | int32 n => .int32 n
  | int64 n => .int64 n
  | uint8 n => .uint8 n
  | uint16 n => .uint16 n
  | uint32 n => .uint32 n
  | uint64 n => .uint64 n
  | number n => .number n
  | boolean flag => .boolean flag
  | string text => .string text

/-- A default is of the type it is the default of. -/
theorem holds_defaultValue (default : Default) :
    default.type.holds (default.defaultValue : Value Json) = true := by
  cases default <;> rfl

end Default

/-- The declaration of a parameter. -/
inductive Argument
  | required (type : Internal)
  | optional (default : Default)
  | nullable (type : Internal)
  | nullopt (default : Default)

def Argument.isRequired : Argument → Bool
  | .required _ => true
  | _ => false

/-- `external_t`: what the handler is given, which is optional of a nullable. -/
inductive External (Json : Type)
  | value (value : Value Json)
  | nullable (value : Option (Value Json))

/-- `only_trailing_unrequireds_t`. -/
def onlyTrailingUnrequireds : List Argument → Bool
  | [] => true
  | first :: rest =>
    if !first.isRequired then rest.all fun argument => !argument.isRequired
    else onlyTrailingUnrequireds rest

/-! ### Interfaces (messages/rpc/method.hpp, publish.hpp) -/

structure Parameter where
  name : String
  argument : Argument

/-- A method, whose parameters have an ordered set of names. -/
structure Method where
  name : String
  parameters : List Parameter
  trailing : onlyTrailingUnrequireds (parameters.map Parameter.argument) = true
  distinct : (parameters.map Parameter.name).Nodup

inductive Grouping
  | positional
  | named
  | either
  deriving DecidableEq

structure Interface where
  mode : Grouping
  methods : List Method

/-- The order in which the arguments of a call are evaluated, which the language leaves
open. -/
structure Evaluation where
  order : ℕ → List ℕ
  complete : ∀ count, (order count).Perm (List.range count)

/-! ### Extraction -/

def getMissing : Argument → Except Error (External Json)
  | .required _ => .error .missingParameter
  | .optional default => .ok (.value default.defaultValue)
  | .nullopt default => .ok (.value default.defaultValue)
  | .nullable _ => .ok (.nullable none)

def getNullified : Argument → Except Error (External Json)
  | .nullopt default => .ok (.value default.defaultValue)
  | .required _ => .error .missingParameter
  | .optional _ => .error .missingParameter
  | .nullable _ => .ok (.nullable none)

/-- `std::get`, or the cast of a pointer: both throw what is an unexpected type. -/
def getAs (type : Internal) (value : Value Json) : Except Error (Value Json) :=
  if type.holds value then .ok value else .error .unexpectedType

def getValued (argument : Argument) (value : Value Json) : Except Error (External Json) :=
  match argument with
  | .required type => (getAs type value).map .value
  | .optional default => (getAs default.type value).map .value
  | .nullopt default => (getAs default.type value).map .value
  | .nullable type => (getAs type value).map fun value => .nullable (some value)

/-- The argument and the position behind it. -/
def getPositional (argument : Argument) (position : ℕ) (array : List (Value Json)) :
    Except Error (External Json × ℕ) :=
  match array[position]? with
  | none => (getMissing argument).map fun value => (value, position)
  | some .null => (getNullified argument).map fun value => (value, position + 1)
  | some internal => (getValued argument internal).map fun value => (value, position + 1)

def getNamed (argument : Argument) (name : String) (object : Object Json) :
    Except Error (External Json) :=
  match object.find name with
  | none => getMissing argument
  | some .null => getNullified argument
  | some internal => getValued argument internal

def getArray : Option (Params Json) → Except Error (List (Value Json))
  | none => .ok []
  | some (.array values) => .ok values
  | some _ => .error .missingArray

def getObject : Option (Params Json) → Except Error (Object Json)
  | none => .ok .empty
  | some (.object object) => .ok object
  | some _ => .error .missingObject

/-- The arguments in the order of the parameters, and the position behind them. -/
def getPositionals (array : List (Value Json)) :
    List Parameter → ℕ → Except Error (List (External Json) × ℕ)
  | [], position => .ok ([], position)
  | parameter :: parameters, position => do
    let (value, position) ← getPositional parameter.argument position array
    let (values, position) ← getPositionals array parameters position
    .ok (value :: values, position)

def extractPositional (parameters : List Parameter) (params : Option (Params Json)) :
    Except Error (List (External Json)) := do
  let array ← getArray params
  let (values, position) ← getPositionals array parameters 0
  if position < array.length then .error .extraPositional else .ok values

/-- The arguments are those of one call, and are evaluated in its order. -/
def extractNamed (evaluation : Evaluation) (parameters : List Parameter)
    (params : Option (Params Json)) : Except Error (List (External Json)) := do
  let object ← getObject params
  if parameters.length < object.size then .error .extraNamed
  else Results.inOrder (evaluation.order parameters.length) <|
    parameters.map fun parameter => getNamed parameter.argument parameter.name object

def extract (evaluation : Evaluation) (mode : Grouping) (parameters : List Parameter)
    (params : Option (Params Json)) : Except Error (List (External Json)) :=
  match mode with
  | .positional => extractPositional parameters params
  | .named => extractNamed evaluation parameters params
  | .either =>
    match params with
    | none => extractPositional parameters params
    | some (.array _) => extractPositional parameters params
    | some _ => extractNamed evaluation parameters params

/-- The arguments that the handlers of the method are notified of, or the code. -/
def notify (evaluation : Evaluation) (interface : Interface) (request : Request Json) :
    Except Error (List (External Json)) :=
  match interface.methods.find? fun method => method.name = request.method with
  | none => .error .unexpectedMethod
  | some method => extract evaluation interface.mode method.parameters request.params

end BitcoinNetwork.Rpc.Dispatcher
