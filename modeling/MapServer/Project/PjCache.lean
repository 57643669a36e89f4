import Mathlib.Data.List.Perm.Basic
import MapServer.Text

/-!
The transformations that `mapproject.c` creates, with the calls of `proj_destroy` on each, and the cache of a
projection context that owns some of them.
-/

namespace MapServer

def PJ_CACHE_ENTRY_SIZE : Nat := 32

/-- `PJ *` of a transformation: its place among those created so far. -/
abbrev PJ := Nat

structure ProjectionObj (Crs : Type) where
  args : List CString
  proj : Option Crs
  proj_ctx : Nat

/-- A transformation, the arguments of the projections it was created for, and how often it was destroyed. -/
structure PjObject where
  source : List CString
  target : List CString
  destructions : Nat
  deriving DecidableEq

structure PjCacheEntry where
  inStr : CString
  outStr : CString
  pj : PJ
  deriving DecidableEq

/-- The transformations, and the `pj_cache` of each context. -/
structure ProjState where
  objects : List PjObject
  pj_cache : Nat → List PjCacheEntry

/-- What PROJ answers: whether a text or a transformation results, and the coordinate systems it makes. -/
structure Proj (Crs : Type) where
  proj_as_proj_string : Crs → Bool
  proj_as_wkt : Crs → Bool
  proj_create_noop : Bool
  /-- `proj_create_crs_to_crs_from_pj` and `proj_normalize_for_visualization`. -/
  proj_create_crs_to_crs : Crs → Crs → Bool
  msProjIsGeographicCRS : Crs → Bool
  getBaseGeographicCRS : Crs → Option Crs

structure ReprojectionObj (Crs : Type) where
  input : Option (ProjectionObj Crs)
  output : Option (ProjectionObj Crs)
  pj : Option PJ
  bFreePJ : Bool

namespace ProjState

def initial : ProjState := ⟨[], fun _ => []⟩

def create (source target : List CString) (state : ProjState) : ProjState :=
  { state with objects := state.objects ++ [⟨source, target, 0⟩] }

def proj_destroy (pj : PJ) (state : ProjState) : ProjState :=
  { state with
    objects := state.objects.modify pj fun object => { object with destructions := object.destructions + 1 } }

def setCache (context : Nat) (entries : List PjCacheEntry) (state : ProjState) : ProjState :=
  { state with pj_cache := Function.update state.pj_cache context entries }

end ProjState

variable {Crs : Type}

def msProjectHasLonWrapOrOver (projection : ProjectionObj Crs) : Bool :=
  projection.args.any fun arg =>
    (ascii "lon_wrap=").isPrefixOf arg || arg = ascii "+over" || arg = ascii "over"

def getStringFromArgv (args : List CString) : CString := args.flatMap (· ++ [32])

/-- Whether the text of a projection is not `NULL`. -/
def hasText (proj : Proj Crs) (projection : ProjectionObj Crs) : Bool :=
  projection.proj.any fun crs =>
    if msProjectHasLonWrapOrOver projection then proj.proj_as_proj_string crs else proj.proj_as_wkt crs

def findEntry (input output : ProjectionObj Crs) (entries : List PjCacheEntry) : Option (Nat × PjCacheEntry) :=
  let found := entries.findIdx? fun entry =>
    entry.inStr = getStringFromArgv input.args && entry.outStr = getStringFromArgv output.args
  found.bind fun i => entries[i]?.map (i, ·)

def moveToTop (i : Nat) (entry : PjCacheEntry) (entries : List PjCacheEntry) : List PjCacheEntry :=
  entry :: entries.eraseIdx i

def insertEntry (context : Nat) (entry : PjCacheEntry) (state : ProjState) : ProjState :=
  let entries := state.pj_cache context
  if entries.length < PJ_CACHE_ENTRY_SIZE then state.setCache context (entries ++ [entry])
  else match entries.getLast? with
    | none => state.setCache context [entry]
    | some evicted => (state.proj_destroy evicted.pj).setCache context (entry :: entries.dropLast)

/-- The transformation with `bFreePJ`, or `none` for `NULL`. -/
def createNormalizedPJ [DecidableEq Crs] (proj : Proj Crs) (input output : ProjectionObj Crs) (state : ProjState) :
    ProjState × Option (PJ × Bool) :=
  if input.proj = output.proj then
    if proj.proj_create_noop then
      (state.create input.args output.args, some (state.objects.length, true))
    else (state, none)
  else if !(hasText proj input && hasText proj output) then (state, none)
  else
    let shared := input.proj_ctx = output.proj_ctx
    let entries := state.pj_cache input.proj_ctx
    match if shared then findEntry input output entries else none with
    | some (i, entry) => (state.setCache input.proj_ctx (moveToTop i entry entries), some (entry.pj, false))
    | none =>
      match input.proj, output.proj with
      | some source, some target =>
        if !proj.proj_create_crs_to_crs source target then (state, none)
        else
          let created := state.create input.args output.args
          let pj := state.objects.length
          if shared then
            let entry := ⟨getStringFromArgv input.args, getStringFromArgv output.args, pj⟩
            (insertEntry input.proj_ctx entry created, some (pj, false))
          else (created, some (pj, true))
      | _, _ => (state, none)

def modified (other : ProjectionObj Crs) (proj : Option Crs) : ProjectionObj Crs :=
  { args := [], proj, proj_ctx := other.proj_ctx }

/-- The projections that a reprojector is made for, or `none` when no transformation is required. A missing coordinate
system is the geographic one of the other. -/
def projectionsBetween (proj : Proj Crs) (input output : Option (ProjectionObj Crs)) :
    Option (ProjectionObj Crs × ProjectionObj Crs) :=
  let same := match input, output with
    | some ⟨[arg], _, _⟩, some ⟨[other], _, _⟩ => arg == other
    | _, _ => false
  if same then none
  else match input, input.bind (·.proj), output, output.bind (·.proj) with
    | some source, some _, some target, some _ => some (source, target)
    | some source, some crs, none, _ =>
      if proj.msProjIsGeographicCRS crs then none else some (source, modified source (proj.getBaseGeographicCRS crs))
    | some source, some crs, some _, none => some (source, modified source (proj.getBaseGeographicCRS crs))
    | _, none, some target, some crs =>
      if proj.msProjIsGeographicCRS crs then none else some (modified target (proj.getBaseGeographicCRS crs), target)
    | _, _, _, _ => none

def msProjectCreateReprojector [DecidableEq Crs] (proj : Proj Crs) (input output : Option (ProjectionObj Crs))
    (state : ProjState) : ProjState × Option (ReprojectionObj Crs) :=
  match projectionsBetween proj input output with
  | none => (state, some { input, output, pj := none, bFreePJ := false })
  | some (source, target) =>
    let (state, made) := createNormalizedPJ proj source target state
    (state, made.map fun (pj, bFreePJ) => { input, output, pj := some pj, bFreePJ })

def msProjectDestroyReprojector (reprojector : ReprojectionObj Crs) (state : ProjState) : ProjState :=
  match reprojector.pj with
  | some pj => if reprojector.bFreePJ then state.proj_destroy pj else state
  | none => state

/-- The reprojectors created so far. A destroyed one, and a creation that returns `NULL`, is `none`. -/
structure ReprojectorSession (Crs : Type) where
  state : ProjState
  reprojectors : List (Option (ReprojectionObj Crs))

def ReprojectorSession.initial : ReprojectorSession Crs := ⟨.initial, []⟩

def ReprojectorSession.reprojector (session : ReprojectorSession Crs) (r : Nat) : Option (ReprojectionObj Crs) :=
  session.reprojectors[r]?.join

inductive ReprojectorCall (Crs : Type) where
  | msProjectCreateReprojector (input output : Option (ProjectionObj Crs))
  | msProjectTransformPoints (reprojector : Nat)
  | msProjectDestroyReprojector (reprojector : Nat)

def ReprojectorSession.step [DecidableEq Crs] (proj : Proj Crs) (session : ReprojectorSession Crs) :
    ReprojectorCall Crs → Option (ReprojectorSession Crs)
  | .msProjectCreateReprojector input output =>
    let (state, made) := MapServer.msProjectCreateReprojector proj input output session.state
    some ⟨state, session.reprojectors ++ [made]⟩
  | .msProjectTransformPoints r => (session.reprojector r).map fun _ => session
  | .msProjectDestroyReprojector r => (session.reprojector r).map fun reprojector =>
    ⟨MapServer.msProjectDestroyReprojector reprojector session.state, session.reprojectors.set r none⟩

inductive ReprojectorRun [DecidableEq Crs] (proj : Proj Crs) :
    List (ReprojectorSession Crs × ReprojectorCall Crs) → ReprojectorSession Crs → Prop where
  | start : ReprojectorRun proj [] .initial
  | call {steps : List (ReprojectorSession Crs × ReprojectorCall Crs)} {session next : ReprojectorSession Crs}
      (before : ReprojectorRun proj steps session) (call : ReprojectorCall Crs)
      (legal : session.step proj call = some next) : ReprojectorRun proj (steps ++ [(session, call)]) next

end MapServer
