import Calculator.Decimal.Layout
import Calculator.Text.Quoted

/-! Settings documents: nested tables of texts, numbers, truth values, dates and arrays, and how
their values look in messages. -/

set_option autoImplicit false

namespace Calculator

structure Date where
  year : Nat
  month : Nat
  day : Nat
  deriving DecidableEq, Repr

structure Clock where
  hour : Nat
  minute : Nat
  second : Nat
  microsecond : Nat
  deriving DecidableEq, Repr

/-- A value of a document. The fields of a table keep their order. A moment has an offset in
minutes unless it is local. -/
inductive Value
  | text (text : Text)
  | integer (value : Int)
  | float (value : Float)
  | boolean (value : Bool)
  | date (date : Date)
  | clock (clock : Clock)
  | moment (date : Date) (clock : Clock) (offset : Option Int)
  | array (items : List Value)
  | table (fields : List (Text × Value))

abbrev Table := List (Text × Value)

namespace Date

def isLeap (year : Nat) : Bool := year % 4 == 0 && (year % 100 != 0 || year % 400 == 0)

def monthLength (year month : Nat) : Nat :=
  if month = 2 then if isLeap year then 29 else 28
  else if month = 4 ∨ month = 6 ∨ month = 9 ∨ month = 11 then 30
  else 31

def isValid (d : Date) : Bool :=
  1 ≤ d.year && 1 ≤ d.month && d.month ≤ 12 && 1 ≤ d.day && d.day ≤ monthLength d.year d.month

def parts (d : Date) : List Nat := [d.year, d.month, d.day]

end Date

def Clock.parts (c : Clock) : List Nat :=
  if c.microsecond ≠ 0 then [c.hour, c.minute, c.second, c.microsecond]
  else if c.second ≠ 0 then [c.hour, c.minute, c.second]
  else [c.hour, c.minute]

namespace Value

def listed (parts : List Nat) : Text := Text.join ", ".toList (parts.map Text.ofNat)

/-- An offset in words. A negative offset is a day less and the rest of that day. -/
def zone (minutes : Int) : Text :=
  if minutes = 0 then "datetime.timezone.utc".toList
  else
    let seconds := Text.ofNat (60 * (minutes % 1440).toNat)
    let days := if minutes < 0 then "days=-1, ".toList else []
    "datetime.timezone(datetime.timedelta(".toList ++ days ++ "seconds=".toList ++ seconds ++
      "))".toList

mutual

def shown : Value → Text
  | .text t => Text.quoted t
  | .integer n => Text.ofInt n
  | .float x => Layout.shown.write x
  | .boolean b => if b then "True".toList else "False".toList
  | .date d => "datetime.date(".toList ++ listed d.parts ++ [')']
  | .clock c => "datetime.time(".toList ++ listed c.parts ++ [')']
  | .moment d c offset =>
    let suffix := match offset with
      | none => []
      | some minutes => ", tzinfo=".toList ++ zone minutes
    "datetime.datetime(".toList ++ listed (d.parts ++ c.parts) ++ suffix ++ [')']
  | .array items => '[' :: Text.join ", ".toList (shownItems items) ++ [']']
  | .table fields => '\x7b' :: Text.join ", ".toList (shownFields fields) ++ ['\x7d']

def shownItems : List Value → List Text
  | [] => []
  | v :: rest => v.shown :: shownItems rest

def shownFields : List (Text × Value) → List Text
  | [] => []
  | (name, v) :: rest => (Text.quoted name ++ ": ".toList ++ v.shown) :: shownFields rest

end

def digitLimit : Nat := 4300

def isLong (n : Int) : Bool := Nat.pow 10 digitLimit ≤ n.natAbs

def showLimit : Nat := 960

inductive Obstacle
  | longInteger
  | tooDeep
  deriving DecidableEq, Repr

mutual

/-- The first obstacle to showing a value that may nest `room` deep. -/
def obstacle? (room : Nat) : Value → Option Obstacle
  | .integer n => if room = 0 then some .tooDeep else if isLong n then some .longInteger else none
  | .array items => if room = 0 then some .tooDeep else itemsObstacle? (room - 1) items
  | .table fields => if room = 0 then some .tooDeep else fieldsObstacle? (room - 1) fields
  | _ => if room = 0 then some .tooDeep else none

def itemsObstacle? (room : Nat) : List Value → Option Obstacle
  | [] => none
  | v :: rest => (v.obstacle? room).or (itemsObstacle? room rest)

def fieldsObstacle? (room : Nat) : List (Text × Value) → Option Obstacle
  | [] => none
  | (_, v) :: rest => (v.obstacle? room).or (fieldsObstacle? room rest)

end

end Value

end Calculator
