import WideColumn.Consistency
import WideColumn.Cursor

/-!
# Handle settings

The settings of a table handle, and what makes them valid.
-/

namespace WideColumn

/-- The settings of a table handle. Names, values and keys that are not packed by type are opaque
bytes. -/
structure HandleOptions where
  packNames : Bool
  packValues : Bool
  packKeys : Bool
  readLevel : Consistency
  writeLevel : Consistency
  /-- The number of rows of a page. -/
  bufferSize : Nat
  /-- The number of keys of one request for several rows. -/
  multigetSize : Nat
  deriving DecidableEq, Repr

namespace HandleOptions

/-- The number of keys of one request for several rows, by default. -/
def defaultMultigetSize : Nat := 16

/-- Everything is packed by type and one replica is enough. -/
def default : HandleOptions where
  packNames := true
  packValues := true
  packKeys := true
  readLevel := .one
  writeLevel := .one
  bufferSize := Cursor.defaultBufferSize
  multigetSize := defaultMultigetSize

instance : Inhabited HandleOptions := ⟨default⟩

/-- Decides about names, values and keys at once. -/
def packAll (o : HandleOptions) (enabled : Bool) : HandleOptions :=
  { o with packNames := enabled, packValues := enabled, packKeys := enabled }

/-- The first fault of the settings. -/
def validate (o : HandleOptions) : Except ClientError Unit :=
  if o.bufferSize < Cursor.minBufferSize then invalid .smallBuffer
  else if o.multigetSize = 0 then invalid .noMultigetBuffer
  else .ok ()

end HandleOptions

end WideColumn
