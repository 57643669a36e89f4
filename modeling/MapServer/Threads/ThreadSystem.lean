import Mathlib.Data.List.TakeWhile
import MapServer.Threads.ThreadLists

namespace MapServer
open Lib.LinkedChain

inductive ThreadState
  | idle
  | inserting (object : Addr) (error : NewError)
  | clearing (object : Addr)
  | unlinking

/-- Who called `msGetErrorObj`. -/
inductive Caller
  | reader
  | msInsertErrorObj (error : NewError)
  | msResetErrorList

def Caller.continues (object : Addr) : Caller → ThreadState
  | reader => .idle
  | msInsertErrorObj error => .inserting object error
  | msResetErrorList => .clearing object

/-- `inserted` is what each thread has inserted since its last reset, the most recent first. -/
structure ThreadSystem (Thread Contexts : Type) where
  errors : ErrorMemory Thread
  contexts : ContextMemory Thread Contexts
  doing : Thread → ThreadState
  inserted : Thread → List NewError

def ThreadSystem.initial (Thread Contexts : Type) : ThreadSystem Thread Contexts where
  errors := ⟨fun _ => none, none⟩
  contexts := ⟨fun _ => none, none⟩
  doing _ := .idle
  inserted _ := []

inductive ThreadEvent
  | fetched (object : Addr)
  | stored (http_status : CString)
  | cleared
  | unlinked (freed : Option Addr)
  | fetchedGroup (group : Addr)

section System
variable {Thread Contexts : Type} [DecidableEq Thread]

def ThreadSystem.store (s : ThreadSystem Thread Contexts) (object : Addr) (node : TeInfo Thread) : ThreadSystem Thread Contexts :=
  { s with errors := { s.errors with heap := Function.update s.errors.heap object (some node) } }

/-- One step of one thread: a critical section, or what it does with the error object it got. -/
inductive ThreadStep (default_contexts : Contexts) (s : ThreadSystem Thread Contexts) (thread : Thread) :
    ThreadEvent → ThreadSystem Thread Contexts → Prop
  | fetch {fuel : Nat} {new_link object : Addr} {errors : ErrorMemory Thread} (caller : Caller)
      (isIdle : s.doing thread = .idle) (fresh : s.errors.heap new_link = none)
      (got : msGetErrorObj fuel new_link thread s.errors = some errors) (head : errors.error_list = some object) :
      ThreadStep default_contexts s thread (.fetched object)
        { s with errors, doing := Function.update s.doing thread (caller.continues object) }
  | insert {object : Addr} {error : NewError} {node : TeInfo Thread} (inserting : s.doing thread = .inserting object error)
      (here : s.errors.heap object = some node) (http_status : CString) :
      ThreadStep default_contexts s thread (.stored http_status)
        { s.store object (fillErrorObj error (insertErrorObj http_status node)) with
          doing := Function.update s.doing thread .idle
          inserted := Function.update s.inserted thread (error :: s.inserted thread) }
  | clear {object : Addr} {node : TeInfo Thread} (clearing : s.doing thread = .clearing object)
      (here : s.errors.heap object = some node) :
      ThreadStep default_contexts s thread .cleared
        { s.store object (clearErrorObj node) with
          doing := Function.update s.doing thread .unlinking
          inserted := Function.update s.inserted thread [] }
  | unlink {fuel : Nat} {freed : Option Addr} {errors : ErrorMemory Thread} (unlinking : s.doing thread = .unlinking)
      (unlinked : unlinkThread fuel thread s.errors = some (freed, errors)) :
      ThreadStep default_contexts s thread (.unlinked freed) { s with errors, doing := Function.update s.doing thread .idle }
  | group {fuel : Nat} {new_group group : Addr} {contexts : ContextMemory Thread Contexts}
      (fresh : s.contexts.heap new_group = none)
      (got : msIO_GetContextGroup fuel new_group default_contexts thread s.contexts = some contexts)
      (head : contexts.io_context_list = some group) :
      ThreadStep default_contexts s thread (.fetchedGroup group) { s with contexts }

inductive ReachedBy (default_contexts : Contexts) (allowed : ThreadSystem Thread Contexts → Thread → ThreadEvent → Prop) :
    ThreadSystem Thread Contexts → Prop
  | initial : ReachedBy default_contexts allowed (.initial Thread Contexts)
  | step {s after : ThreadSystem Thread Contexts} {thread : Thread} {event : ThreadEvent}
      (before : ReachedBy default_contexts allowed s) (next : ThreadStep default_contexts s thread event after)
      (fits : allowed s thread event) : ReachedBy default_contexts allowed after

def errorStack : List NewError → List ErrorFields
  | [] => []
  | last :: before => last.fields :: (before.drop (before.length - 100)).map NewError.fields

def StackHolds (seen : ErrorFields → ErrorFields) (node : TeInfo Thread) : List NewError → Prop
  | [] => node.ms_error.code = MS_NOERR ∧ node.ms_error.isreported = false ∧ node.older = [] ∧ node.totalerrorcount = 0
  | last :: before => node.ms_error = last.fields ∧
    node.older.map seen = ((before.drop (before.length - 100)).map NewError.fields).map seen ∧
    node.totalerrorcount = min before.length 100

section Stack
omit [DecidableEq Thread]
variable {seen : ErrorFields → ErrorFields} {node : TeInfo Thread} {inserted : List NewError}

theorem stackHolds_empty (thread_id : Thread) : StackHolds seen (emptyInfo thread_id) [] :=
  ⟨rfl, rfl, rfl, rfl⟩

theorem clearErrorObj_holds : StackHolds seen (clearErrorObj node) [] :=
  ⟨rfl, rfl, rfl, rfl⟩

theorem stackHolds_congr {other : TeInfo Thread} (same : other.unlinked = node.unlinked)
    (holds : StackHolds seen node inserted) : StackHolds seen other inserted := by
  have bare : StackHolds seen node.unlinked inserted := by
    cases inserted <;> exact holds
  rw [← same] at bare
  cases inserted <;> exact bare

theorem insertErrorObj_holds (holds : StackHolds seen node inserted) (error : NewError) (http_status : CString)
    (keeps : node.ms_error.code ≠ MS_NOERR → node.totalerrorcount < 100 →
      seen { node.ms_error with http_status } = seen node.ms_error) :
    StackHolds seen (fillErrorObj error (insertErrorObj http_status node)) (error :: inserted) := by
  cases inserted with
  | nil =>
    obtain ⟨unused, unreported, older, total⟩ := holds
    have same : insertErrorObj http_status node = node := if_neg fun used => used.1 unused
    rw [same]
    refine ⟨?_, ?_, total⟩
    · show { error.fields with isreported := node.ms_error.isreported } = error.fields
      rw [unreported]
      rfl
    · show node.older.map seen = _
      rw [older]
      rfl
  | cons last before =>
    obtain ⟨isLast, older, total⟩ := holds
    have used : node.ms_error.code ≠ MS_NOERR := by
      rw [isLast]
      exact last.isError
    rcases Nat.lt_or_ge before.length 100 with room | full
    · have counted : node.totalerrorcount < 100 := by omega
      have pushed : insertErrorObj http_status node = _ := if_pos ⟨used, counted⟩
      rw [pushed]
      refine ⟨rfl, ?_, ?_⟩
      · show seen { node.ms_error with http_status } :: node.older.map seen = _
        have all : (last :: before).length - 100 = 0 := by
          simp only [List.length_cons]
          omega
        have rest : before.length - 100 = 0 := by omega
        rw [keeps used counted, older, isLast, all, rest]
        rfl
      · show node.totalerrorcount + 1 = min (before.length + 1) 100
        omega
    · have counted : ¬ node.totalerrorcount < 100 := by omega
      have same : insertErrorObj http_status node = node := if_neg fun used => counted used.2
      rw [same]
      refine ⟨?_, ?_, ?_⟩
      · show { error.fields with isreported := node.ms_error.isreported } = error.fields
        rw [isLast]
        rfl
      · show node.older.map seen = _
        have dropped : (last :: before).length - 100 = before.length - 100 + 1 := by
          simp only [List.length_cons]
          omega
        rw [older, dropped, List.drop_succ_cons]
      · show node.totalerrorcount = min (before.length + 1) 100
        omega

theorem readErrors_eq (keepsCode : ∀ error, (seen error).code = error.code) (holds : StackHolds seen node inserted) :
    (readErrors node).map seen = (errorStack inserted).map seen := by
  have decided : (fun error : ErrorFields => decide (error.code ≠ MS_NOERR)) =
      (fun error => decide (error.code ≠ MS_NOERR)) ∘ seen := by
    funext error
    rw [Function.comp_apply, keepsCode]
  cases inserted with
  | nil =>
    obtain ⟨unused, _⟩ := holds
    simp [readErrors, errorStack, unused]
  | cons last before =>
    obtain ⟨isLast, older, _⟩ := holds
    have everywhere : ∀ error ∈ errorStack (last :: before), decide (error.code ≠ MS_NOERR) = true := by
      intro error member
      rcases List.mem_cons.mp member with rfl | member
      · exact decide_eq_true last.isError
      · obtain ⟨earlier, _, rfl⟩ := List.mem_map.mp member
        exact decide_eq_true earlier.isError
    rw [readErrors, decided, ← List.takeWhile_map, List.map_cons, older, isLast, ← List.map_cons, List.takeWhile_map, ← decided]
    exact congrArg _ (List.takeWhile_eq_self_iff.mpr everywhere)

end Stack

end System

end MapServer
