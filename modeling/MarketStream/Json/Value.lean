import MarketStream.Decimal.Binary64

/-!
# JSON values

The value of a JSON text. Whole numbers are told apart from measured ones, and the members of an
object are kept in the order of their keys, each key once, so that equal objects are equal values
and have one text.

* `Json.Integer` — the whole numbers a JSON number can denote exactly;
* `Json.Value` — values;
* `Json.Members` — the members of an object, with `find?` and `insert`.
-/

namespace MarketStream.Json

/-- A whole number that fits 64 bits, signed or unsigned. -/
structure Integer where
  /-- The number. -/
  val : Int
  /-- No smaller than the least signed 64-bit number. -/
  lower : -0x8000000000000000 ≤ val
  /-- No larger than the greatest unsigned 64-bit number. -/
  upper : val < 0x10000000000000000
deriving DecidableEq

/-- The integer of a number in range. -/
def Integer.ofInt? (n : Int) : Option Integer :=
  if h : -0x8000000000000000 ≤ n ∧ n < 0x10000000000000000 then some ⟨n, h.1, h.2⟩ else none

/-- The integer of a signed 64-bit number. -/
def Integer.ofInt64 (n : Int64) : Integer :=
  ⟨n.toInt, Int64.le_toInt n, Int.lt_trans (Int64.toInt_lt n) (by decide)⟩

/-- A JSON value. -/
inductive Value where
  /-- The absent value. -/
  | null
  /-- A truth value. -/
  | bool (b : Bool)
  /-- A whole number. -/
  | integer (n : Integer)
  /-- A measured number. -/
  | float (x : Binary64)
  /-- A text. -/
  | string (s : String)
  /-- A list of values. -/
  | array (items : List Value)
  /-- Named values, in the order of their names. -/
  | object (members : List (String × Value))

instance : Inhabited Value := ⟨.null⟩

/-- The members of an object, in increasing order of their keys. -/
abbrev Members := List (String × Value)

namespace Members

/-- The value under a key. -/
def find? (key : String) (ms : Members) : Option Value := ms.lookup key

/-- The members with one value set, replacing an earlier value of the key. -/
def insert (key : String) (value : Value) : Members → Members
  | [] => [(key, value)]
  | (k, v) :: rest =>
    if key = k then (key, value) :: rest
    else if key < k then (key, value) :: (k, v) :: rest
    else (k, v) :: insert key value rest

/-- The members of a list of settings, a later one of a key winning. -/
def ofList (entries : List (String × Value)) : Members :=
  entries.foldl (fun ms (key, value) => ms.insert key value) []

end Members

/-- The object with the given members, a later one of a key winning. -/
def Value.ofList (entries : List (String × Value)) : Value := .object (Members.ofList entries)

/-- The value of a signed 64-bit number. -/
def Value.ofInt64 (n : Int64) : Value := .integer (Integer.ofInt64 n)

/-! ## Equality -/

namespace Value

mutual
/-- Whether two values are the same. -/
def beq : Value → Value → Bool
  | .null, .null => true
  | .bool a, .bool b => a == b
  | .integer a, .integer b => a == b
  | .float a, .float b => a == b
  | .string a, .string b => a == b
  | .array as, .array bs => beqItems as bs
  | .object as, .object bs => beqMembers as bs
  | _, _ => false

/-- Whether two lists of values are the same. -/
def beqItems : List Value → List Value → Bool
  | [], [] => true
  | a :: as, b :: bs => beq a b && beqItems as bs
  | _, _ => false

/-- Whether two lists of members are the same. -/
def beqMembers : List (String × Value) → List (String × Value) → Bool
  | [], [] => true
  | (k, a) :: as, (l, b) :: bs => k == l && beq a b && beqMembers as bs
  | _, _ => false
end

mutual
/-- The test decides equality of values. -/
theorem beq_iff : (a b : Value) → (a.beq b = true ↔ a = b)
  | .array as, b => by cases b <;> simp [beq, beqItems_iff as]
  | .object as, b => by cases b <;> simp [beq, beqMembers_iff as]
  | .null, b | .bool _, b | .integer _, b | .float _, b | .string _, b => by cases b <;> simp [beq]

/-- The test decides equality of lists of values. -/
theorem beqItems_iff : (as bs : List Value) → (beqItems as bs = true ↔ as = bs)
  | [], bs => by cases bs <;> simp [beqItems]
  | a :: as, bs => by cases bs <;> simp [beqItems, beq_iff a, beqItems_iff as]

/-- The test decides equality of lists of members. -/
theorem beqMembers_iff :
    (as bs : List (String × Value)) → (beqMembers as bs = true ↔ as = bs)
  | [], bs => by cases bs <;> simp [beqMembers]
  | (k, a) :: as, bs => by
    cases bs with
    | nil => simp [beqMembers]
    | cons b bs => cases b; simp [beqMembers, beq_iff a, beqMembers_iff as]
end

instance : DecidableEq Value := fun a b => decidable_of_iff _ (beq_iff a b)

end Value

end MarketStream.Json
