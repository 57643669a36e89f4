import MapServer.Mapfile.InnermostValidation

namespace MapServer
open Lib.Placeholders List Option Function

section Tables
variable {table : SoundTable}

end Tables

def again (times : Nat) (tags : List (CString × CString)) : List (CString × CString) := tags.flatMap (List.replicate times)

def passes : LayerPlace → Nat
  | .inClass _ _ => 1
  | _ => 0

variable {formatoption key other value : CString}

end MapServer
