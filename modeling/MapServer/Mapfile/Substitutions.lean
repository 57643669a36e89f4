import MapServer.Hash.KeyLoop

namespace MapServer

def strcasestr (find : CString) : CString → Option (CString × CString)
  | [] => if find = [] then some ([], []) else none
  | c :: s =>
    if (find.map tolower).isPrefixOf ((c :: s).map tolower) then some ([], c :: s)
    else (strcasestr find s).map fun (before, found) => (c :: before, found)

def replaceFrom (old newstr : CString) : Nat → CString → CString
  | 0, str => str
  | fuel + 1, str =>
    match strcasestr old str with
    | none => str
    | some (before, found) => before ++ newstr ++ replaceFrom old newstr fuel (found.drop old.length)

def msCaseReplaceSubstring (old newstr str : CString) : CString := replaceFrom old newstr str.length str

structure ClassStrings where
  expression : Option CString
  text : Option CString
  title : Option CString
  validation : SoundTable

structure LayerStrings where
  data : Option CString
  tileindex : Option CString
  connection : Option CString
  filter : Option CString
  mask : Option CString
  bindvals : SoundTable
  metadata : SoundTable
  processing : List CString
  classes : List ClassStrings
  validation : SoundTable

/-- `outputformatlist` are the format options of each output format. -/
structure MapStrings where
  layers : List LayerStrings
  outputformatlist : List (List CString)
  webMetadata : SoundTable
  webTemplate : Option CString
  webValidation : SoundTable

section Apply
variable (msEvalRegex : CString → CString → Bool) (getenv : CString → Option CString) (params : List (CString × CString))

def getParamValue (key : CString) : Option CString :=
  if params = [] then none
  else
    match getenv key with
    | some value => some value
    | none => (params.reverse.find? fun param => sameIgnoringCase key param.1).map (·.2)

end Apply

end MapServer
