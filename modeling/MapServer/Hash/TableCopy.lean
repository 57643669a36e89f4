import MapServer.Hash.KeyLoop

/-! `msCopyHashTable` of `mapcopy.c`. -/

namespace MapServer
open List Option

end MapServer
