import MapServer.Text

/-!
# The error list and the context list of the threads

`none` stands for an access to memory that is not allocated, or for a search that does not end.
-/

namespace MapServer

abbrev Addr := Nat

def MS_NOERR : Int := 0

/-- An `errorObj` without its links. -/
structure ErrorFields where
  code : Int
  routine : CString
  message : CString
  http_status : CString
  isreported : Bool
  errorcount : Nat
  deriving DecidableEq

/-- The last five values are `ms_error`: what its fields are, the older errors behind it and `totalerrorcount`. -/
structure TeInfo (Thread : Type) where
  next : Option Addr
  thread_id : Thread
  ms_error : ErrorFields
  older : List ErrorFields
  totalerrorcount : Nat

structure ErrorMemory (Thread : Type) where
  heap : Addr → Option (TeInfo Thread)
  error_list : Option Addr

def noError : ErrorFields := ⟨MS_NOERR, [], [], [], false, 0⟩

section ErrorList
variable {Thread : Type} [DecidableEq Thread]

def findLink (heap : Addr → Option (TeInfo Thread)) (thread_id : Thread) : Nat → Option Addr → Option (Option Addr)
  | 0, _ => none
  | _ + 1, none => some none
  | fuel + 1, some link => do
    let node ← heap link
    if node.thread_id = thread_id then some (some link)
    else match node.next with
      | none => some (some link)
      | some next => do
        let following ← heap next
        if following.thread_id = thread_id then some (some link) else findLink heap thread_id fuel (some next)

def addLink (new_link : Addr) (thread_id : Thread) (memory : ErrorMemory Thread) : ErrorMemory Thread where
  heap := Function.update memory.heap new_link (some ⟨memory.error_list, thread_id, noError, [], 0⟩)
  error_list := some new_link

def isHead (thread_id : Thread) (memory : ErrorMemory Thread) : Option Bool :=
  match memory.error_list with
  | none => some false
  | some head => (memory.heap head).map fun node => node.thread_id = thread_id

def msGetErrorObj (fuel : Nat) (new_link : Addr) (thread_id : Thread) (memory : ErrorMemory Thread) :
    Option (ErrorMemory Thread) := do
  let link ← findLink memory.heap thread_id fuel memory.error_list
  if ← isHead thread_id memory then some memory
  else match link with
    | none => some (addLink new_link thread_id memory)
    | some link => do
      let node ← memory.heap link
      match node.next with
      | none => some (addLink new_link thread_id memory)
      | some target => do
        let following ← memory.heap target
        let heap := Function.update memory.heap link (some { node with next := following.next })
        let promoted ← heap target
        some { heap := Function.update heap target (some { promoted with next := memory.error_list }), error_list := some target }

/-- What `msInsertErrorObj` does with the error object; `malloc` returns memory that holds `http_status`. -/
def insertErrorObj (http_status : CString) (node : TeInfo Thread) : TeInfo Thread :=
  if node.ms_error.code ≠ MS_NOERR ∧ node.totalerrorcount < 100 then
    { node with
      older := { node.ms_error with http_status } :: node.older
      ms_error := { node.ms_error with code := MS_NOERR, isreported := false, routine := [], message := [], errorcount := 0 }
      totalerrorcount := node.totalerrorcount + 1 }
  else node

/-- The error that a caller of `msInsertErrorObj` stores. -/
structure NewError where
  code : Int
  routine : CString
  message : CString
  http_status : CString
  isError : code ≠ MS_NOERR

def NewError.fields (error : NewError) : ErrorFields :=
  ⟨error.code, error.routine, error.message, error.http_status, false, 0⟩

/-- The assignments of `msSetErrorInternal` to the object it got. -/
def fillErrorObj (error : NewError) (node : TeInfo Thread) : TeInfo Thread :=
  { node with ms_error := { error.fields with isreported := node.ms_error.isreported } }

/-- What `msResetErrorList` does with the error object. -/
def clearErrorObj (node : TeInfo Thread) : TeInfo Thread :=
  { node with
    older := []
    ms_error := { node.ms_error with code := MS_NOERR, isreported := false, routine := [], message := [], errorcount := 0 }
    totalerrorcount := 0 }

/-- The second critical section of `msResetErrorList`, and the node that it frees. -/
def unlinkThread (fuel : Nat) (thread_id : Thread) (memory : ErrorMemory Thread) :
    Option (Option Addr × ErrorMemory Thread) := do
  let link ← (← findLink memory.heap thread_id fuel memory.error_list)
  let node ← memory.heap link
  if node.thread_id = thread_id then
    some (some link, {
      heap := Function.update memory.heap link none
      error_list := if memory.error_list = some link then node.next else memory.error_list })
  else match node.next with
    | none => some (none, memory)
    | some next_link => do
      let following ← memory.heap next_link
      if following.thread_id = thread_id then
        let heap := Function.update memory.heap link (some { node with next := following.next })
        some (some next_link, { memory with heap := Function.update heap next_link none })
      else some (none, memory)

/-- The loop over the list that `msGetErrorString` and its siblings read. -/
def readErrors (node : TeInfo Thread) : List ErrorFields :=
  (node.ms_error :: node.older).takeWhile fun error => error.code ≠ MS_NOERR

end ErrorList

structure ContextGroup (Thread Contexts : Type) where
  contexts : Contexts
  thread_id : Thread
  next : Option Addr

structure ContextMemory (Thread Contexts : Type) where
  heap : Addr → Option (ContextGroup Thread Contexts)
  io_context_list : Option Addr

section Contexts
variable {Thread Contexts : Type} [DecidableEq Thread]

def findGroup (heap : Addr → Option (ContextGroup Thread Contexts)) (thread_id : Thread) :
    Nat → Option Addr → Option Addr → Option (Option Addr × Option Addr)
  | 0, _, _ => none
  | _ + 1, prev, none => some (prev, none)
  | fuel + 1, prev, some group => do
    let node ← heap group
    if node.thread_id = thread_id then some (prev, some group) else findGroup heap thread_id fuel (some group) node.next

/-- The group that is returned is the head of the list; `calloc` returns `new_group`. -/
def msIO_GetContextGroup (fuel : Nat) (new_group : Addr) (default_contexts : Contexts) (thread_id : Thread)
    (memory : ContextMemory Thread Contexts) : Option (ContextMemory Thread Contexts) := do
  let first ← match memory.io_context_list with
    | none => some false
    | some group => (memory.heap group).map fun node => node.thread_id = thread_id
  if first then some memory
  else
    match ← findGroup memory.heap thread_id fuel none memory.io_context_list with
    | (_, none) =>
      some { heap := Function.update memory.heap new_group (some ⟨default_contexts, thread_id, memory.io_context_list⟩),
             io_context_list := some new_group }
    | (none, some _) => some memory
    | (some prev, some group) => do
      let before ← memory.heap prev
      let found ← memory.heap group
      let heap := Function.update memory.heap prev (some { before with next := found.next })
      let found ← heap group
      some { heap := Function.update heap group (some { found with next := memory.io_context_list }), io_context_list := some group }

end Contexts

end MapServer
