import MapServer.Mapfile.TagReplacement

namespace MapServer
open Lib.Placeholders List Option Function

inductive ClassString where
  | expression
  | text
  | title

inductive LayerPlace where
  | data
  | tileindex
  | connection
  | filter
  | mask
  | bindval (key : CString)
  | metadata (key : CString)
  | processing (i : Nat)
  | inClass (c : Nat) (string : ClassString)

def ClassStrings.get (cp : ClassStrings) : ClassString → Option CString
  | .expression => cp.expression
  | .text => cp.text
  | .title => cp.title

def LayerStrings.get (lp : LayerStrings) : LayerPlace → Option CString
  | .data => lp.data
  | .tileindex => lp.tileindex
  | .connection => lp.connection
  | .filter => lp.filter
  | .mask => lp.mask
  | .bindval key => lp.bindvals.lookup key
  | .metadata key => lp.metadata.lookup key
  | .processing i => lp.processing[i]?
  | .inClass c string => lp.classes[c]?.bind (·.get string)

def MapStrings.get (map : MapStrings) (l : Nat) (place : LayerPlace) : Option CString := map.layers[l]?.bind (·.get place)

/-- The `validation` of the class and the layer around a string. -/
def LayerStrings.blocks (lp : LayerStrings) : LayerPlace → List SoundTable
  | .inClass c _ => (lp.classes[c]?.map (·.validation)).toList ++ [lp.validation]
  | _ => [lp.validation]

/-- The `validation` of the blocks around a string, the innermost first. -/
def MapStrings.blocks (map : MapStrings) (l : Nat) (place : LayerPlace) : List SoundTable :=
  (map.layers[l]?.map fun lp => lp.blocks place ++ [map.webValidation]).getD []

section Values
variable (msEvalRegex : CString → CString → Bool) (params : List (CString × CString))

def requestValue (key : CString) : Option CString :=
  (params.reverse.find? fun param => sameIgnoringCase key param.1).map (·.2)

def allowed (blocks : List SoundTable) (key : CString) : Option CString :=
  (requestValue params key).filter fun value => blocks.any fun table => (table.lookup key).any (msEvalRegex · value)

end Values

section Applied
variable (msEvalRegex : CString → CString → Bool) (getenv : CString → Option CString) (params : List (CString × CString))

/-- The keys of a `validation` that are applied, with their values. -/
def accepted (table : SoundTable) : List (CString × CString) :=
  table.keys.filterMap fun key => (getParamValue getenv params key).bind fun value =>
    if (table.lookup key).any (msEvalRegex · value) then some (key, value) else none

variable {msEvalRegex getenv params}

end Applied

section Applied
variable {msEvalRegex : CString → CString → Bool} {getenv : CString → Option CString} {params : List (CString × CString)}

end Applied

end MapServer
