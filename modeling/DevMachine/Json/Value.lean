/-!
# JSON values

Integers of 64 bits, with or without a sign, are kept exactly; every other
number is a double.  An object keeps its members in ascending order of their
keys, each key once.
-/

namespace DevMachine.Json

/-- An integer that fits 64 bits, with or without a sign. -/
structure Whole where
  val : Int
  lower : -9223372036854775808 ≤ val := by decide
  upper : val < 18446744073709551616 := by decide
  deriving DecidableEq

/-- The first integer that does not fit 64 bits with a sign. -/
def signedLimit : Int := 9223372036854775808

/-- The integer as a member of the kept range, when it lies in it. -/
def Whole.ofInt? (n : Int) : Option Whole :=
  if h : -9223372036854775808 ≤ n ∧ n < 18446744073709551616 then
    some { val := n, lower := h.1, upper := h.2 }
  else none

def Whole.ofUInt64 (n : UInt64) : Whole :=
  { val := n.toNat
    lower := by omega
    upper := by have := n.toNat_lt; omega }

inductive Number
  | whole (n : Whole)
  | real (x : Float)

inductive Value
  | null
  | bool (b : Bool)
  | number (n : Number)
  | string (s : String)
  | array (items : List Value)
  | object (members : List (String × Value))

abbrev Member := String × Value

instance : Inhabited Value := ⟨.null⟩

/-- Puts a member at its place; an earlier member of the same key is
replaced. -/
def insertMember (key : String) (value : Value) : List Member → List Member
  | [] => [(key, value)]
  | (k, v) :: rest =>
    if key = k then (key, value) :: rest
    else if key < k then (key, value) :: (k, v) :: rest
    else (k, v) :: insertMember key value rest

/-- The object of some members, of which the last of each key counts. -/
def Value.ofMembers (members : List Member) : Value :=
  .object (members.foldl (fun kept m => insertMember m.1 m.2 kept) [])

/-- The first member of a key. -/
def findMember? (key : String) : List Member → Option Value
  | [] => none
  | (k, v) :: rest => if k = key then some v else findMember? key rest

/-- The member of an object; other values have none. -/
def Value.member? (key : String) : Value → Option Value
  | .object members => findMember? key members
  | _ => none

def Value.string? : Value → Option String
  | .string s => some s
  | _ => none

def Value.int? : Value → Option Int
  | .number (.whole n) => some n.val
  | _ => none

/-- The value as an integer from 0 to 2^64 - 1. -/
def Value.uint64? (v : Value) : Option UInt64 :=
  match v.int? with
  | some n => if 0 ≤ n then some (UInt64.ofNat n.toNat) else none
  | none => none

def Value.ofInt (n : Int) : Value :=
  match Whole.ofInt? n with
  | some w => .number (.whole w)
  | none => .null

def Value.ofNat (n : Nat) : Value := .ofInt n

end DevMachine.Json
