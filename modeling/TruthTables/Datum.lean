import TruthTables.Number
import TruthTables.Text.Quoted

/-!
# Data — what a cell or an assignment may hold

    Truth tables work with truth values, but a learner's cell and an
    assignment accept any datum: nothing, a truth value, a number, a text,
    a list or a record.  A datum counts as true unless it is empty or zero,
    and it agrees with a truth value when it is that value or the number one
    or zero that stands for it.
-/

namespace TruthTables

/-- A value of any sort. -/
inductive Datum where
  | null
  | truth (b : Bool)
  | int (n : Int)
  /-- A number with a point. -/
  | real (x : Number)
  | text (s : String)
  | list (items : List Datum)
  | record (fields : List (String × Datum))

namespace Datum

/-- Whether the datum counts as true. -/
def truthy : Datum → Bool
  | .null => false
  | .truth b => b
  | .int n => n ≠ 0
  | .real x => !x.isZero
  | .text s => s ≠ ""
  | .list items => !items.isEmpty
  | .record fields => !fields.isEmpty

/-- Whether there is no datum at all. -/
def isNull : Datum → Bool
  | .null => true
  | _ => false

/-- Whether the datum is the truth value `b`, or the number that stands for
    it: one for true and zero for false. -/
def agrees (b : Bool) : Datum → Bool
  | .truth c => c = b
  | .int n => n = if b then 1 else 0
  | .real x => x.same (.ofInt (if b then 1 else 0))
  | _ => false

/-- The word for the sort of datum. -/
def sort : Datum → String
  | .null => "NoneType"
  | .truth _ => "bool"
  | .int _ => "int"
  | .real _ => "float"
  | .text _ => "str"
  | .list _ => "list"
  | .record _ => "dict"

/-- The number that the datum is or stands for. -/
def number? : Datum → Option Number
  | .truth b => some (.ofInt b.toNat)
  | .int n => some (.ofInt n)
  | .real x => some x
  | _ => none

/-- Whether the datum can serve as a key: lists and records cannot. -/
def isKey : Datum → Bool
  | .list _ | .record _ => false
  | _ => true

mutual

/-- Equality of data.  Numbers are compared by value, truth values as the
    numbers they stand for, records without regard to order. -/
def same (a b : Datum) : Bool :=
  match a, b with
  | .null, .null => true
  | .text s, .text t => s = t
  | .list xs, .list ys => sameItems xs ys
  | .record xs, .record ys => xs.length = ys.length && sameFields xs ys
  | a, b =>
      match a.number?, b.number? with
      | some m, some n => m.same n
      | _, _ => false
termination_by sizeOf a

/-- Equality of lists of data, item by item. -/
def sameItems (xs ys : List Datum) : Bool :=
  match xs, ys with
  | [], [] => true
  | x :: xs, y :: ys => same x y && sameItems xs ys
  | _, _ => false
termination_by sizeOf xs

/-- Whether each field of the first record is in the second with the same
    datum. -/
def sameFields (xs ys : List (String × Datum)) : Bool :=
  match xs with
  | [] => true
  | (key, x) :: xs =>
      (match ys.lookup key with
        | some y => same x y
        | none => false) && sameFields xs ys
termination_by sizeOf xs

end

mutual

/-- The debug form of a datum. -/
def debugForm (a : Datum) : String :=
  match a with
  | .null => "None"
  | .truth b => Text.truthWord b
  | .int n => toString n
  | .real x => x.text
  | .text s => Text.quote s
  | .list items => "[" ++ Text.commaSeparated (itemForms items) ++ "]"
  | .record fields => "\x7b" ++ Text.commaSeparated (fieldForms fields) ++ "\x7d"
termination_by sizeOf a

/-- The debug forms of the items of a list. -/
def itemForms (xs : List Datum) : List String :=
  match xs with
  | [] => []
  | x :: xs => debugForm x :: itemForms xs
termination_by sizeOf xs

/-- The debug forms of the fields of a record. -/
def fieldForms (xs : List (String × Datum)) : List String :=
  match xs with
  | [] => []
  | (key, x) :: xs => (Text.quote key ++ ": " ++ debugForm x) :: fieldForms xs
termination_by sizeOf xs

end

/-- The rotation of a cell: blank, true, false, blank again.  Any other
    datum rotates like the truth value it counts as. -/
def cycle (a : Datum) : Datum :=
  if a.isNull then .truth true else if a.truthy then .truth false else .null

end Datum

end TruthTables
