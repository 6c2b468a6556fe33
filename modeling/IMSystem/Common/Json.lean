import IMSystem.Common.Retry
import Mathlib.Data.List.Sort

/-!
# jsoncpp

jsoncpp is not part of the repository. `Api` is what the push and the admin service call of
it, and `Api.Documented` is what is taken for granted. `treeApi` has these properties, with
any parser: it is the library on values that are trees, and `Tree.write` is its writer.
-/

namespace IMSystem.Json

open Lib

/-- The types of `Json::Value`, as far as its functions tell them apart. -/
inductive Kind where
  | null
  | boolean
  | number
  | string
  | array
  | object
deriving DecidableEq, Repr

/-- A JSON value without fractions. -/
inductive Tree where
  | null
  | bool (b : Bool)
  | int (i : Int)
  | string (s : Bytes)
  | array (elements : List Tree)
  | object (members : List (Bytes × Tree))

/-- The functions of jsoncpp. -/
structure Api where
  Value : Type
  kind : Value → Kind
  /-- `Json::parseFromStream` with the default `CharReaderBuilder`: `none` when it returns
  `false`. It raises when the nesting exceeds the `stackLimit` of the reader. -/
  parse : Bytes → Except Exn (Option Value)
  isMember : Value → Bytes → Except Exn Bool
  /-- `operator[]` with a member name. -/
  get : Value → Bytes → Except Exn Value
  /-- `operator[]` with an index that is not negative. -/
  index : Value → Nat → Except Exn Value
  size : Value → UInt32
  asString : Value → Except Exn Bytes
  isUInt64 : Value → Bool
  asUInt64 : Value → Except Exn UInt64
  /-- `Json::writeString` without indentation. -/
  writeString : Tree → Bytes

namespace Api

/-- What is documented of jsoncpp: members are there in objects only and may be asked for in
objects and nulls only, and a value of the asked type can be converted. -/
structure Documented (J : Api) : Prop where
  isMember_null : ∀ v k, J.kind v = .null → J.isMember v k = .ok false
  isMember_raises : ∀ v k, J.kind v ≠ .null → J.kind v ≠ .object → ∃ e, J.isMember v k = .error e
  get_raises : ∀ v k, J.kind v ≠ .null → J.kind v ≠ .object → ∃ e, J.get v k = .error e
  asString_string : ∀ v, J.kind v = .string → ∃ s, J.asString v = .ok s
  asUInt64_isUInt64 : ∀ v, J.isUInt64 v = true → ∃ n, J.asUInt64 v = .ok n

/-- Only objects have members. -/
theorem Documented.object_of_isMember {J : Api} (h : J.Documented) {v : J.Value} {k : Bytes}
    (hmember : J.isMember v k = .ok true) : J.kind v = .object := by
  by_contra hobject
  by_cases hnull : J.kind v = .null
  · rw [h.isMember_null v k hnull] at hmember
    cases hmember
  · obtain ⟨e, hraises⟩ := h.isMember_raises v k hnull hobject
    rw [hraises] at hmember
    cases hmember

end Api

/-! ## The library on trees -/

namespace Tree

def kind : Tree → Kind
  | null => .null
  | bool _ => .boolean
  | int _ => .number
  | string _ => .string
  | array _ => .array
  | object _ => .object

/-- `Json::LogicError`. -/
def logicError : Exn := .std (str "Json::LogicError")

def isMember : Tree → Bytes → Except Exn Bool
  | null, _ => .ok false
  | object members, k => .ok (members.any (·.1 = k))
  | _, _ => .error logicError

/-- A member that is missing is a null. -/
def get : Tree → Bytes → Except Exn Tree
  | null, _ => .ok null
  | object members, k => .ok ((members.find? (·.1 = k)).elim null Prod.snd)
  | _, _ => .error logicError

/-- An element that is missing is a null. -/
def index : Tree → Nat → Except Exn Tree
  | null, _ => .ok null
  | array elements, i => .ok (elements.getD i null)
  | _, _ => .error logicError

def size : Tree → UInt32
  | array elements => .ofNat elements.length
  | object members => .ofNat members.length
  | _ => 0

def asString : Tree → Except Exn Bytes
  | null => .ok []
  | bool b => .ok (if b then str "true" else str "false")
  | int i => .ok (intDecimal i)
  | string s => .ok s
  | _ => .error logicError

def isUInt64 : Tree → Bool
  | int i => 0 ≤ i ∧ i < 2 ^ 64
  | _ => false

/-- The integer that an object has under `code`. -/
def code : Tree → Option Int
  | object members =>
    match members.find? (·.1 = str "code") with
    | some (_, int i) => some i
    | _ => none
  | _ => none

def asUInt64 : Tree → Except Exn UInt64
  | null => .ok 0
  | bool b => .ok (if b then 1 else 0)
  | int i => if 0 ≤ i ∧ i < 2 ^ 64 then .ok (.ofNat i.toNat) else .error logicError
  | _ => .error logicError

/-! ### The writer -/

/-- A character between quotation marks. The library also escapes what is not ASCII,
which no text here has. -/
def escaped (c : UInt8) : Bytes :=
  if c = chr '"' then str "\\\""
  else if c = chr '\\' then str "\\\\"
  else if c = 8 then str "\\b"
  else if c = 12 then str "\\f"
  else if c = chr '\n' then str "\\n"
  else if c = chr '\r' then str "\\r"
  else if c = chr '\t' then str "\\t"
  else if c < 32 then
    str "\\u00" ++ [chr (Nat.digitChar (c.toNat / 16)), chr (Nat.digitChar (c.toNat % 16))]
  else [c]

def quoted (s : Bytes) : Bytes := chr '"' :: (s.flatMap escaped ++ [chr '"'])

def enclosed (left right : UInt8) (texts : List Bytes) : Bytes :=
  left :: ([chr ','].intercalate texts ++ [right])

mutual

/-- `Json::writeString` with the `indentation` `""`. -/
def write : Tree → Bytes
  | null => str "null"
  | bool b => if b then str "true" else str "false"
  | int i => intDecimal i
  | string s => quoted s
  | array elements => enclosed (chr '[') (chr ']') (writeElements elements)
  | object members =>
    -- the members are kept in a `std::map`
    let sorted := (writeMembers members).insertionSort fun a b => a.1 ≤ b.1
    enclosed (chr '\x7b') (chr '\x7d') (sorted.map fun m => quoted m.1 ++ chr ':' :: m.2)

def writeElements : List Tree → List Bytes
  | [] => []
  | element :: elements => write element :: writeElements elements

def writeMembers : List (Bytes × Tree) → List (Bytes × Bytes)
  | [] => []
  | (name, value) :: members => (name, write value) :: writeMembers members

end

example : write (.object [(str "msg", .string (str "a \"b\"")), (str "code", .int (-1)),
      (str "list", .array [.null, .bool true])]) =
    str "\x7b\"code\":-1,\"list\":[null,true],\"msg\":\"a \\\"b\\\"\"\x7d" := by
  decide +kernel

end Tree

/-- jsoncpp on trees, with a parser for them. -/
def treeApi (parse : Bytes → Except Exn (Option Tree)) : Api where
  Value := Tree
  kind := Tree.kind
  parse := parse
  isMember := Tree.isMember
  get := Tree.get
  index := Tree.index
  size := Tree.size
  asString := Tree.asString
  isUInt64 := Tree.isUInt64
  asUInt64 := Tree.asUInt64
  writeString := Tree.write

theorem treeApi_documented (parse : Bytes → Except Exn (Option Tree)) :
    (treeApi parse).Documented where
  isMember_null := by
    intro v k hnull
    cases v with
    | null => rfl
    | bool | int | string | array | object => cases hnull
  isMember_raises := by
    intro v k hnull hobject
    cases v with
    | null => exact absurd rfl hnull
    | object => exact absurd rfl hobject
    | bool | int | string | array => exact ⟨_, rfl⟩
  get_raises := by
    intro v k hnull hobject
    cases v with
    | null => exact absurd rfl hnull
    | object => exact absurd rfl hobject
    | bool | int | string | array => exact ⟨_, rfl⟩
  asString_string := by
    intro v hstring
    cases v with
    | string s => exact ⟨s, rfl⟩
    | null | bool | int | array | object => cases hstring
  asUInt64_isUInt64 := by
    intro v hnumber
    cases v with
    | int i => exact ⟨_, if_pos (of_decide_eq_true hnumber)⟩
    | null | bool | string | array | object => cases hnumber

end IMSystem.Json
