import WideColumn.DataType.Basic
import WideColumn.Text.Blank

/-!
# Type names

A schema names types by class, with an optional package in front and parameters in parentheses:
`some.package.CompositeType(LongType, some.package.UTF8Type)`. Only the last dotted segment counts.
Names that a registry does not know stand for opaque bytes, so that any table can be read.

- `Registry.standard` knows the simple types; `Registry.register` adds or replaces a simple name;
- `Registry.resolve` reads a class name of any nesting.
-/

namespace WideColumn

/-- Simple type names and their types; the entry in front counts when a name occurs twice. -/
structure Registry where
  entries : List (String × DataType)

namespace Registry

def empty : Registry := ⟨[]⟩

/-- The built-in names: the class name of every simple type, and one alias. -/
def standard : Registry :=
  ⟨("Int32Type", .integer) ::
    [DataType.bytes, .ascii, .utf8, .long, .integer, .boolean, .date, .lexicalUuid, .timeUuid,
      .uuid, .counter].map fun type => (type.head, type)⟩

/-- Adds a simple name or replaces it. -/
def register (r : Registry) (name : String) (type : DataType) : Registry :=
  ⟨(name, type) :: r.entries⟩

/-- The type of a simple name. -/
def find? (r : Registry) (name : List Char) : Option DataType :=
  r.entries.lookup (String.ofList name)

/-! ## The parts of a class name -/

/-- The last dotted segment of a name, without the blanks around the name. -/
def shortName (name : List Char) : List Char :=
  ((Text.trim name).reverse.takeWhile (· != '.')).reverse

/-- Splits at the commas outside parentheses. `piece` is the part since the last such comma, last
character first. Blanks around a part go; an empty part counts unless it is the last. -/
def splitFrom (depth : Nat) (piece : List Char) : List Char → List (List Char)
  | [] => if (Text.trim piece.reverse).isEmpty then [] else [Text.trim piece.reverse]
  | '(' :: cs => splitFrom (depth + 1) ('(' :: piece) cs
  | ')' :: cs => splitFrom (depth - 1) (')' :: piece) cs
  | ',' :: cs =>
    if depth = 0 then Text.trim piece.reverse :: splitFrom 0 [] cs
    else splitFrom depth (',' :: piece) cs
  | c :: cs => splitFrom depth (c :: piece) cs

def splitParams (inner : List Char) : List (List Char) := splitFrom 0 [] inner

theorem length_of_mem_splitFrom {p : List Char} (depth : Nat) (piece cs : List Char)
    (h : p ∈ splitFrom depth piece cs) : p.length ≤ piece.length + cs.length := by
  -- trimming a piece does not make it longer, and a piece is made of characters of the text
  have trimmed (piece : List Char) : (Text.trim piece.reverse).length ≤ piece.length := by
    simpa using Text.length_trim_le piece.reverse
  fun_induction splitFrom depth piece cs with
  | case1 => simp at h
  | case2 depth piece =>
    rw [List.mem_singleton.1 h]
    exact trimmed piece
  | case5 piece cs ih =>
    simp only [List.mem_cons] at h
    rcases h with rfl | h
    · have := trimmed piece
      omega
    · have := ih h
      simp only [List.length_nil, List.length_cons] at this ⊢
      omega
  | case3 _ _ _ ih | case4 _ _ _ ih | case6 _ _ _ _ ih | case7 _ _ _ _ _ _ _ ih =>
    have := ih h
    simp only [List.length_cons] at this ⊢
    omega

theorem length_of_mem_splitParams {p inner : List Char} (h : p ∈ splitParams inner) :
    p.length ≤ inner.length := by
  simpa using length_of_mem_splitFrom 0 [] inner h

/-- A parameter list without the parenthesis that closes it. -/
def stripClose (cs : List Char) : List Char :=
  if cs.getLast? = some ')' then cs.dropLast else cs

theorem length_stripClose_le (cs : List Char) : (stripClose cs).length ≤ cs.length := by
  unfold stripClose
  split
  · simp
  · exact Nat.le_refl _

/-- What stands after the first opening parenthesis, if there is one. -/
def afterOpen? (cs : List Char) : Option (List Char) :=
  match cs.dropWhile (· != '(') with
  | [] => none
  | _ :: rest => some rest

theorem length_afterOpen? {cs rest : List Char} (h : afterOpen? cs = some rest) :
    rest.length < cs.length := by
  unfold afterOpen? at h
  have := Text.length_dropWhile_le (· != '(') cs
  split at h
  · contradiction
  · next heq =>
    simp only [Option.some.injEq] at h
    subst h
    rw [heq, List.length_cons] at this
    omega

/-! ## Resolution -/

/-- The type of a parametrised name from its parameters' types; a name that takes no such
parameters is looked up as a simple one. -/
def ofParams (r : Registry) (base : List Char) (params : List DataType) : DataType :=
  if base = (DataType.head (.composite [])).toList ∧ params ≠ [] then .composite params
  else
    match params with
    | [element] =>
      if base = (DataType.head (.list .bytes)).toList then .list element
      else (r.find? base).getD .bytes
    | [key, value] =>
      if base = (DataType.head (.map .bytes .bytes)).toList then .map key value
      else (r.find? base).getD .bytes
    | _ => (r.find? base).getD .bytes

/-- The type a class name stands for. -/
def resolveChars (r : Registry) (name : List Char) : DataType :=
  match _h : afterOpen? (Text.trim name) with
  | none =>
    if (Text.trim name).isEmpty then .bytes
    else (r.find? (shortName (Text.trim name))).getD .bytes
  | some rest =>
    r.ofParams (shortName ((Text.trim name).takeWhile (· != '(')))
      ((splitParams (stripClose rest)).attach.map fun ⟨param, _⟩ => r.resolveChars param)
termination_by name.length
decreasing_by
  have hparam := length_of_mem_splitParams ‹_›
  have hrest := length_afterOpen? _h
  have hclose := length_stripClose_le rest
  have htrim := Text.length_trim_le name
  omega

def resolve (r : Registry) (name : String) : DataType := r.resolveChars name.toList

/-- Whether the last segment of a name is a simple name of the registry. -/
def contains (r : Registry) (name : String) : Bool := (r.find? (shortName name.toList)).isSome

end Registry

end WideColumn
