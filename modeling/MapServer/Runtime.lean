import MapServer.Words

namespace MapServer

inductive MsErrorCode where
  | MS_IOERR
  | MS_MEMERR
  | MS_SHPERR
  | MS_DBFERR
  | MS_WEBERR
  | MS_CGIERR
  | MS_MISCERR
  deriving DecidableEq

/-- What `msSetError` is called with. -/
structure ErrorObj where
  code : MsErrorCode
  message : String
  routine : String
  deriving DecidableEq

inductive ConnectionType where
  | MS_INLINE | MS_SHAPEFILE | MS_TILED_SHAPEFILE | MS_UNUSED_2 | MS_OGR | MS_UNUSED_1 | MS_POSTGIS | MS_WMS
  | MS_ORACLESPATIAL | MS_WFS | MS_GRATICULE | MS_MYSQL | MS_RASTER | MS_PLUGIN | MS_UNION | MS_UVRASTER
  | MS_CONTOUR | MS_KERNELDENSITY | MS_IDW | MS_FLATGEOBUF | MS_RASTER_LABEL | MS_KRIGING
  deriving DecidableEq

def checkedInt (value : Int) : Option Int := if -INT_MAX - 1 ≤ value ∧ value ≤ INT_MAX then some value else none

/-- The value of an `unsigned int` expression. -/
def uint32 (value : Int) : Nat := (value % 4294967296).toNat

/-- The value of a `char` expression, as a byte. -/
def byte (value : Int) : UInt8 := UInt8.ofNat (value % 256).toNat

def msSmallMalloc (malloc : Nat → UInt8) (size : Nat) : List UInt8 := (List.range size).map malloc

/-- A buffer with another size; `malloc` is what it holds past its old end. -/
def SfRealloc (malloc : Nat → UInt8) (buffer : List UInt8) (nNewSize : Nat) : List UInt8 :=
  buffer.take nNewSize ++ msSmallMalloc malloc (nNewSize - buffer.length)

/-- `array[index]` of an array with as many entries as the list. -/
def entryAt {α : Type} (entries : List α) (index : Int) : Option α :=
  if index < 0 then none else entries[index.toNat]?

theorem checkedInt_of_range {value : Int} (low : -2147483648 ≤ value) (high : value ≤ INT_MAX) :
    checkedInt value = some value := by
  rw [checkedInt, if_pos ⟨by unfold INT_MAX; omega, high⟩]

theorem checkedInt_some {value int : Int} (held : checkedInt value = some int) : int = value ∧ value ≤ INT_MAX := by
  unfold checkedInt at held
  split at held
  · rename_i range
    exact ⟨(Option.some.inj held).symm, range.2⟩
  · cases held

theorem uint32_of_range {value : Int} (low : 0 ≤ value) (high : value < 4294967296) : uint32 value = value := by
  rw [uint32, Int.emod_eq_of_lt low high, Int.toNat_of_nonneg low]

theorem length_msSmallMalloc (malloc : Nat → UInt8) (size : Nat) : (msSmallMalloc malloc size).length = size := by
  simp [msSmallMalloc]

end MapServer
