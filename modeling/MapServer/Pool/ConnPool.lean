import MapServer.Runtime
import MapServer.Text

/-!
The table of `mappool.c`. Each function holds the pool lock from its first access of the table to
its last, so a call is one step. Connection handles and thread ids are numbers.
-/

namespace MapServer

/-- What the pool reads of a layer. `close_connection` is the value of its `CLOSE_CONNECTION`
processing key. -/
structure PoolLayer where
  name : CString
  connectiontype : ConnectionType
  connection : Option CString
  tileindex : Option CString
  close_connection : Option CString
  deriving DecidableEq

def MS_LIFE_FOREVER : Int := -1
def MS_LIFE_ZEROREF : Int := -2
def MS_LIFE_SINGLE : Int := -3

structure ConnectionObj where
  connectiontype : ConnectionType
  connection : CString
  lifespan : Int
  ref_count : Int
  thread_id : Nat
  conn_handle : Nat
  /-- Whether there is a `close` callback. -/
  close : Bool

inductive PoolError where
  | missingConnection (layer : CString)
  | memory
  | unrecognisedValue (close_connection : CString)
  | closingReferenced (connection : CString) (ref_count : Int)
  | unableToFind (layer : CString)

/-- The table, with the handles given to their `close` callback and the errors raised, latest first. -/
structure ConnectionPool where
  connections : List ConnectionObj
  connectionMax : Nat
  closed : List Nat
  errors : List PoolError

namespace ConnectionPool

def initial : ConnectionPool := ⟨[], 0, [], []⟩

def error (pool : ConnectionPool) (raised : PoolError) : ConnectionPool :=
  { pool with errors := raised :: pool.errors }

end ConnectionPool

def lifespanOf (layer : PoolLayer) : Int × Option PoolError :=
  let close_connection := layer.close_connection.getD (ascii "NORMAL")
  if sameIgnoringCase close_connection (ascii "NORMAL") then (MS_LIFE_ZEROREF, none)
  else if sameIgnoringCase close_connection (ascii "DEFER") then (MS_LIFE_FOREVER, none)
  else if sameIgnoringCase close_connection (ascii "ALWAYS") then (MS_LIFE_SINGLE, none)
  else (MS_LIFE_ZEROREF, some (.unrecognisedValue close_connection))

/-- `memory` says whether `realloc` grants a larger table. -/
def msConnPoolRegister (thread : Nat) (layer : PoolLayer) (conn_handle : Nat) (close memory : Bool)
    (pool : ConnectionPool) : ConnectionPool :=
  match layer.connection with
  | none =>
    if layer.tileindex.isSome ∧ layer.connectiontype = .MS_OGR then pool
    else pool.error (.missingConnection layer.name)
  | some connection =>
    let full := pool.connections.length ≥ pool.connectionMax
    if full ∧ !memory then pool.error .memory
    else
      let (lifespan, unrecognised) := lifespanOf layer
      let conn : ConnectionObj := {
        connectiontype := layer.connectiontype
        connection, lifespan, ref_count := 1, thread_id := thread, conn_handle, close }
      { pool with
        connections := pool.connections ++ [conn]
        connectionMax := if full then pool.connectionMax + 10 else pool.connectionMax
        errors := unrecognised.toList ++ pool.errors }

def msConnPoolClose (conn_index : Nat) (pool : ConnectionPool) : ConnectionPool :=
  match pool.connections[conn_index]?, pool.connections.getLast? with
  | some conn, some last =>
    let connections := (pool.connections.set conn_index last).dropLast
    { connections
      connectionMax := if connections.isEmpty then 0 else pool.connectionMax
      closed := if conn.close then conn.conn_handle :: pool.closed else pool.closed
      errors := if conn.ref_count > 0 then .closingReferenced conn.connection conn.ref_count :: pool.errors
        else pool.errors }
  | _, _ => pool

def sameConnection (layer : PoolLayer) (connection : CString) (conn : ConnectionObj) : Bool :=
  layer.connectiontype = conn.connectiontype && sameIgnoringCase connection conn.connection

def takeReference (thread : Nat) (conn : ConnectionObj) : ConnectionObj :=
  { conn with ref_count := conn.ref_count + 1, thread_id := thread }

/-- The connection found, or `none` for `NULL`. -/
def msConnPoolRequest (thread : Nat) (layer : PoolLayer) (pool : ConnectionPool) : ConnectionPool × Option Nat :=
  match layer.connection with
  | none => (pool, none)
  | some connection =>
    if layer.close_connection.any fun value => sameIgnoringCase value (ascii "ALWAYS") then (pool, none)
    else
      let found := pool.connections.findIdx? fun conn =>
        sameConnection layer connection conn && (conn.ref_count = 0 || conn.thread_id = thread) &&
          conn.lifespan != MS_LIFE_SINGLE
      match found with
      | none => (pool, none)
      | some i =>
        ({ pool with connections := pool.connections.modify i (takeReference thread) },
          pool.connections[i]?.map (·.conn_handle))

def releaseReference (conn : ConnectionObj) : ConnectionObj :=
  let ref_count := conn.ref_count - 1
  { conn with ref_count, thread_id := if ref_count = 0 then 0 else conn.thread_id }

def msConnPoolRelease (layer : PoolLayer) (conn_handle : Nat) (pool : ConnectionPool) : ConnectionPool :=
  match layer.connection with
  | none => pool
  | some connection =>
    let found := pool.connections.findIdx? fun conn =>
      sameConnection layer connection conn && conn.conn_handle = conn_handle
    match found with
    | none => pool.error (.unableToFind layer.name)
    | some i =>
      let pool := { pool with connections := pool.connections.modify i releaseReference }
      let unused := pool.connections[i]?.any fun conn =>
        conn.ref_count = 0 && (conn.lifespan = MS_LIFE_ZEROREF || conn.lifespan = MS_LIFE_SINGLE)
      if unused then msConnPoolClose i pool else pool

/-- The loop of `msConnPoolCloseUnreferenced`, from the entry before the given one down to the first. -/
def closeUnreferencedBelow : Nat → ConnectionPool → ConnectionPool
  | 0, pool => pool
  | i + 1, pool =>
    let unreferenced := pool.connections[i]?.any fun conn => conn.ref_count = 0
    closeUnreferencedBelow i (if unreferenced then msConnPoolClose i pool else pool)

def msConnPoolCloseUnreferenced (pool : ConnectionPool) : ConnectionPool :=
  closeUnreferencedBelow pool.connections.length pool

structure Acquisition where
  thread : Nat
  handle : Nat
  layer : PoolLayer
  deriving DecidableEq

structure PoolSystem where
  pool : ConnectionPool
  held : List Acquisition
  registered : List (Nat × PoolLayer)

def PoolSystem.initial : PoolSystem := ⟨.initial, [], []⟩

/-- One call by one thread. A registered handle is new, and a thread releases only what it holds, with
the layer it got it for. -/
inductive PoolStep (s : PoolSystem) : PoolSystem → Prop where
  | register (thread : Nat) (layer : PoolLayer) (handle : Nat) (close memory : Bool)
      (fresh : handle ∉ s.registered.map Prod.fst) :
      PoolStep s {
        pool := msConnPoolRegister thread layer handle close memory s.pool
        held := ⟨thread, handle, layer⟩ :: s.held
        registered := (handle, layer) :: s.registered }
  | request (thread : Nat) (layer : PoolLayer) :
      PoolStep s {
        s with
        pool := (msConnPoolRequest thread layer s.pool).1
        held := ((msConnPoolRequest thread layer s.pool).2.map (⟨thread, ·, layer⟩)).toList ++ s.held }
  | release (acquisition : Acquisition) (member : acquisition ∈ s.held) :
      PoolStep s {
        s with
        pool := msConnPoolRelease acquisition.layer acquisition.handle s.pool
        held := s.held.erase acquisition }
  | closeUnreferenced : PoolStep s { s with pool := msConnPoolCloseUnreferenced s.pool }

end MapServer
