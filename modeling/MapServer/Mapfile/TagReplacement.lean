import MapServer.Lib.Placeholders
import MapServer.Mapfile.Substitutions

namespace MapServer
open Lib.Placeholders List Option Function

def only (key value : CString) (name : CString) : Option CString := if sameIgnoringCase key name then some value else none

end MapServer
