/-!
# Consistency levels

How many replicas have to answer before an operation counts as done. Each level has a number on the
wire, a name in capitals and a name in settings; `ofCode?` and `ofName?` read them back.
-/

namespace WideColumn

/-- The replicas an operation waits for. -/
inductive Consistency where
  | any
  | one
  | two
  | three
  | quorum
  | localQuorum
  | eachQuorum
  | all
  deriving DecidableEq, Repr

namespace Consistency

instance : Inhabited Consistency := ⟨.one⟩

/-- Every level. -/
def levels : List Consistency :=
  [.any, .one, .two, .three, .quorum, .localQuorum, .eachQuorum, .all]

/-- The number on the wire. -/
def code : Consistency → Nat
  | .one => 1
  | .quorum => 2
  | .localQuorum => 3
  | .eachQuorum => 4
  | .all => 5
  | .any => 6
  | .two => 7
  | .three => 8

/-- The name in capitals. -/
def label : Consistency → String
  | .any => "ANY"
  | .one => "ONE"
  | .two => "TWO"
  | .three => "THREE"
  | .quorum => "QUORUM"
  | .localQuorum => "LOCAL_QUORUM"
  | .eachQuorum => "EACH_QUORUM"
  | .all => "ALL"

/-- The name in settings. -/
def name : Consistency → String
  | .any => "Any"
  | .one => "One"
  | .two => "Two"
  | .three => "Three"
  | .quorum => "Quorum"
  | .localQuorum => "LocalQuorum"
  | .eachQuorum => "EachQuorum"
  | .all => "All"

def ofCode? (n : Int) : Option Consistency := levels.find? fun level => (level.code : Int) == n

def ofLabel? (s : String) : Option Consistency := levels.find? fun level => level.label == s

def ofName? (s : String) : Option Consistency := levels.find? fun level => level.name == s

theorem ofCode?_code (level : Consistency) : ofCode? level.code = some level := by
  cases level <;> rfl

end Consistency

end WideColumn
