import MapServer.Runtime
import MapServer.Text
import Mathlib.Data.List.DropRight

namespace MapServer

def msEncodeChar (c : UInt8) : Bool :=
  !((c ≥ 0x61 && c ≤ 0x7A) || (c ≥ 0x41 && c ≤ 0x5A) || (c ≥ 0x30 && c ≤ 0x39) || (c ≥ 0x27 && c ≤ 0x2A) ||
    (c ≥ 0x2D && c ≤ 0x2E) || c == 0x5F || c == 0x21 || c == 0x7E)

def hexDigit (digit : UInt8) : UInt8 := if digit < 10 then 48 + digit else 55 + digit

def encodeCharExcept (except c : UInt8) : List UInt8 :=
  if except ≠ 0 ∧ c = except then [except]
  else if msEncodeChar c then [37, hexDigit (c / 16), hexDigit (c % 16)]
  else [c]

def msEncodeUrlExcept (data : CString) (except : UInt8) : CString := data.flatMap (encodeCharExcept except)

def msEncodeUrl (data : CString) : CString := msEncodeUrlExcept data 0

/-- The word before the first `stop`, and what is left of the line after it. -/
def makeword (line : CString) (stop : UInt8) : CString × CString :=
  (line.takeWhile (· ≠ stop), (line.dropWhile (· ≠ stop)).tail)

def makeword_skip (line : CString) (stop skip : UInt8) : CString × CString :=
  makeword (line.dropWhile (· = skip)) stop

def hex_to_integer (c : UInt8) : Option UInt8 :=
  if 48 ≤ c ∧ c ≤ 57 then some (c - 48)
  else if 65 ≤ c ∧ c ≤ 70 then some (c - 65 + 10)
  else if 97 ≤ c ∧ c ≤ 102 then some (c - 97 + 10)
  else none

/-- Decodes `%` and two digits. A `%` that is not followed by them is left as it is. -/
def unescapeBytes : List UInt8 → List UInt8
  | [] => []
  | c :: hi :: lo :: rest =>
    if c = 37 then
      match hex_to_integer hi, hex_to_integer lo with
      | some high, some low => (high * 16 + low) :: unescapeBytes rest
      | _, _ => c :: unescapeBytes (hi :: lo :: rest)
    else c :: unescapeBytes (hi :: lo :: rest)
  | c :: rest => c :: unescapeBytes rest

def unescape_url (url : CString) : CString := (unescapeBytes url).takeWhile (· ≠ 0)

def plustospace (str : CString) : CString := str.map fun c => if c = 43 then 32 else c

inductive MS_PARAM_SOURCE where
  | MS_PARAM_SOURCE_POST
  | MS_PARAM_SOURCE_QUERYSTRING
  | MS_PARAM_SOURCE_COOKIE
  deriving DecidableEq

structure Param where
  name : CString
  value : CString
  source : MS_PARAM_SOURCE
  deriving DecidableEq

theorem makeword_shorter (c : UInt8) (rest : CString) (stop : UInt8) :
    (makeword (c :: rest) stop).2.length < (c :: rest).length := by
  have shorter := (List.dropWhile_suffix (fun letter => decide (letter ≠ stop)) : _ <:+ c :: rest).length_le
  rw [List.length_cons] at shorter
  rw [makeword, List.length_tail, List.length_cons]
  omega

/-- The loop over a string of parameters with `stop` between them. `word` takes the name off a decoded parameter. -/
def loadWords (source : MS_PARAM_SOURCE) (stop : UInt8) (word : CString → CString × CString) (line : CString) :
    List Param :=
  match line with
  | [] => []
  | c :: rest =>
    let made := makeword (c :: rest) stop
    let (name, value) := word (unescape_url (plustospace made.1))
    { name, value, source } :: loadWords source stop word made.2
termination_by line.length
decreasing_by exact makeword_shorter c rest stop

structure CgiEnv where
  REQUEST_METHOD : Option CString
  CONTENT_TYPE : Option CString
  QUERY_STRING : Option CString
  HTTP_COOKIE : Option CString
  MS_NO_POST : Option CString

inductive MS_REQUEST_TYPE where
  | MS_GET_REQUEST
  | MS_POST_REQUEST
  deriving DecidableEq

structure CgiRequestObj where
  params : List Param
  type : MS_REQUEST_TYPE
  contenttype : Option CString
  postrequest : Option CString
  httpcookiedata : Option CString
  deriving DecidableEq

def paramError (message : String) : ErrorObj := { code := .MS_WEBERR, message, routine := "loadParams()" }

/-- The parameters of a string in the format of `QUERY_STRING`. -/
def loadQueryString (source : MS_PARAM_SOURCE) (queryString : CString) : List Param :=
  loadWords source 38 (fun param => makeword param 61) queryString

def loadCookies (env : CgiEnv) (request : CgiRequestObj) : CgiRequestObj :=
  match env.HTTP_COOKIE with
  | none => request
  | some httpCookie =>
    { request with
      httpcookiedata := some httpCookie
      params := request.params ++
        loadWords .MS_PARAM_SOURCE_COOKIE 59 (fun param => makeword_skip param 61 32) httpCookie }

/-- `readPostBody` is what the function of that name returns. The error is `none` when no request method is set. -/
def loadParams (env : CgiEnv) (contenttype raw_post_data : Option CString) (readPostBody : Except ErrorObj CString) :
    Except (Option ErrorObj) CgiRequestObj :=
  match env.REQUEST_METHOD with
  | none => .error none
  | some method =>
    if method = ascii "POST" ∧ env.MS_NO_POST = none then
      let contenttype := contenttype.getD (env.CONTENT_TYPE.getD (ascii "application/octet-stream"))
      match raw_post_data.elim readPostBody .ok with
      | .error error => .error (some error)
      | .ok post_data =>
        let urlencoded := (ascii "application/x-www-form-urlencoded").isPrefixOf contenttype
        let posted := if urlencoded then loadQueryString .MS_PARAM_SOURCE_POST (post_data.rdropWhile isspace) else []
        let queried := (env.QUERY_STRING.map (loadQueryString .MS_PARAM_SOURCE_QUERYSTRING)).getD []
        .ok (loadCookies env {
          params := posted ++ queried, type := .MS_POST_REQUEST, contenttype := some contenttype
          postrequest := if urlencoded then none else some post_data, httpcookiedata := none })
    else if method = ascii "GET" then
      match env.QUERY_STRING with
      | none => .error (some (paramError "No query information to decode. QUERY_STRING not set."))
      | some queryString =>
        if queryString.length = 0 then
          .error (some (paramError "No query information to decode. QUERY_STRING is set, but empty."))
        else
          .ok (loadCookies env {
            params := loadQueryString .MS_PARAM_SOURCE_QUERYSTRING queryString, type := .MS_GET_REQUEST, contenttype
            postrequest := none, httpcookiedata := none })
    else .error (some (paramError "This script should be referenced with a METHOD of GET or METHOD of POST."))

end MapServer

namespace MapServer

theorem forall_byte {p : UInt8 → Prop} (all : ∀ b : BitVec 8, p (UInt8.ofBitVec b)) (c : UInt8) : p c := all c.toBitVec

theorem hex_to_integer_hexDigit (c : UInt8) :
    hex_to_integer (hexDigit (c / 16)) = some (c / 16) ∧ hex_to_integer (hexDigit (c % 16)) = some (c % 16) ∧
      c / 16 * 16 + c % 16 = c := by
  revert c
  apply forall_byte
  decide

theorem hexDigit_separator (c : UInt8) :
    (hexDigit (c / 16) ≠ 38 ∧ hexDigit (c / 16) ≠ 43) ∧ hexDigit (c % 16) ≠ 38 ∧ hexDigit (c % 16) ≠ 43 := by
  revert c
  apply forall_byte
  decide

theorem safe_separator (c : UInt8) : msEncodeChar c = false → c ≠ 37 ∧ c ≠ 38 ∧ c ≠ 43 := by
  revert c
  apply forall_byte
  decide

theorem encodeChar_eq (c : UInt8) :
    encodeCharExcept 0 c = if msEncodeChar c then [37, hexDigit (c / 16), hexDigit (c % 16)] else [c] := by
  rw [encodeCharExcept, if_neg (by simp)]

theorem msEncodeUrl_cons (c : UInt8) (data : CString) : msEncodeUrl (c :: data) = encodeCharExcept 0 c ++ msEncodeUrl data :=
  List.flatMap_cons

theorem msEncodeUrl_separator (data : CString) : ∀ c ∈ msEncodeUrl data, c ≠ 38 ∧ c ≠ 43 := by
  intro c member
  obtain ⟨letter, -, inside⟩ := List.mem_flatMap.mp member
  rw [encodeChar_eq] at inside
  split at inside
  · obtain ⟨high, low⟩ := hexDigit_separator letter
    simp only [List.mem_cons, List.not_mem_nil, or_false] at inside
    rcases inside with rfl | rfl | rfl
    · decide
    · exact high
    · exact low
  · rename_i safe
    rw [List.mem_singleton.mp inside]
    exact (safe_separator letter (by simpa using safe)).2

theorem plustospace_of_none {text : CString} (none : ∀ c ∈ text, c ≠ 43) : plustospace text = text := by
  rw [plustospace]
  apply (List.map_congr_left _).trans (List.map_id _)
  intro c member
  exact if_neg (none c member)

theorem unescapeBytes_cons {c : UInt8} (plain : c ≠ 37) (rest : List UInt8) :
    unescapeBytes (c :: rest) = c :: unescapeBytes rest := by
  match rest with
  | [] => rfl
  | [_] => rfl
  | _ :: _ :: _ => rw [unescapeBytes, if_neg plain]

theorem unescapeBytes_encodeChar (c : UInt8) (rest : List UInt8) :
    unescapeBytes (encodeCharExcept 0 c ++ rest) = c :: unescapeBytes rest := by
  rw [encodeChar_eq]
  split
  · obtain ⟨high, low, whole⟩ := hex_to_integer_hexDigit c
    simp only [List.cons_append, List.nil_append, unescapeBytes, high, low, whole, if_true]
  · rename_i safe
    exact unescapeBytes_cons (safe_separator c (by simpa using safe)).1 rest

theorem unescapeBytes_msEncodeUrl (data rest : List UInt8) :
    unescapeBytes (msEncodeUrl data ++ rest) = data ++ unescapeBytes rest := by
  induction data with
  | nil => rfl
  | cons c data ih => rw [msEncodeUrl_cons, List.append_assoc, unescapeBytes_encodeChar, ih, List.cons_append]

def encodePair (pair : CString × CString) : CString := msEncodeUrl pair.1 ++ [61] ++ msEncodeUrl pair.2

def queryString (pairs : List (CString × CString)) : CString := [38].intercalate (pairs.map encodePair)

theorem encodePair_separator (pair : CString × CString) : ∀ c ∈ encodePair pair, c ≠ 38 ∧ c ≠ 43 := by
  intro c member
  rcases List.mem_append.mp member with front | value
  · rcases List.mem_append.mp front with name | equals
    · exact msEncodeUrl_separator _ c name
    · rw [List.mem_singleton.mp equals]
      decide
  · exact msEncodeUrl_separator _ c value

variable {stop : UInt8} {line : CString} {source : MS_PARAM_SOURCE} {word : CString → CString × CString}

theorem makeword_of_none {word : CString} (none : ∀ c ∈ word, c ≠ stop) : makeword word stop = (word, []) := by
  have all : ∀ c ∈ word, decide (c ≠ stop) = true := fun c member => decide_eq_true (none c member)
  rw [makeword, List.takeWhile_eq_self_iff.mpr all, List.dropWhile_eq_nil_iff.mpr all]
  rfl

theorem makeword_of_stop {word : CString} (none : ∀ c ∈ word, c ≠ stop) (rest : CString) :
    makeword (word ++ stop :: rest) stop = (word, rest) := by
  have all : ∀ c ∈ word, decide (c ≠ stop) = true := fun c member => decide_eq_true (none c member)
  rw [makeword, List.takeWhile_append_of_pos all, List.dropWhile_append_of_pos all, List.takeWhile_cons_of_neg (by simp),
    List.dropWhile_cons_of_neg (by simp), List.append_nil, List.tail_cons]

theorem unescape_encodePair {pair : CString × CString} (text : 0 ∉ pair.1 ∧ 0 ∉ pair.2) :
    unescape_url (plustospace (encodePair pair)) = pair.1 ++ 61 :: pair.2 := by
  have plain := plustospace_of_none fun c member => (encodePair_separator pair c member).2
  have value := unescapeBytes_msEncodeUrl pair.2 []
  rw [List.append_nil, unescapeBytes, List.append_nil] at value
  rw [plain, unescape_url, encodePair, List.append_assoc, unescapeBytes_msEncodeUrl, List.singleton_append,
    unescapeBytes_cons (by decide), value]
  apply List.takeWhile_eq_self_iff.mpr
  intro c member
  have nonzero : c ≠ 0 := by
    rintro rfl
    rcases List.mem_append.mp member with name | rest
    · exact text.1 name
    · rcases List.mem_cons.mp rest with impossible | value
      · exact absurd impossible (by decide)
      · exact text.2 value
  exact decide_eq_true nonzero

theorem encodePair_ne_nil (pair : CString × CString) : encodePair pair ≠ [] := by
  simp [encodePair]

theorem loadQueryString_nil (source : MS_PARAM_SOURCE) : loadQueryString source [] = [] := by
  rw [loadQueryString, loadWords]

theorem loadQueryString_step (source : MS_PARAM_SOURCE) (some_char : line ≠ []) : loadQueryString source line =
      (let made := makeword line 38
       let pair := makeword (unescape_url (plustospace made.1)) 61
       { name := pair.1, value := pair.2, source } :: loadQueryString source made.2) := by
  cases line with
  | nil => exact absurd rfl some_char
  | cons c rest =>
    rw [loadQueryString, loadWords]
    rfl

theorem loadQueryString_queryString (source : MS_PARAM_SOURCE) {pairs : List (CString × CString)}
    (text : ∀ pair ∈ pairs, 0 ∉ pair.1 ∧ 0 ∉ pair.2) :
    (loadQueryString source (queryString pairs)).map (fun param => (param.name, param.value)) =
      pairs.map fun pair => makeword (pair.1 ++ 61 :: pair.2) 61 := by
  induction pairs with
  | nil =>
    have nothing : queryString [] = [] := rfl
    rw [nothing, loadQueryString_nil]
    rfl
  | cons pair rest ih =>
    have decoded := unescape_encodePair (text pair List.mem_cons_self)
    have whole : ∀ c ∈ encodePair pair, c ≠ 38 := fun c member => (encodePair_separator pair c member).1
    have later := ih fun other member => text other (List.mem_cons_of_mem _ member)
    cases rest with
    | nil =>
      have single : queryString [pair] = encodePair pair := by simp [queryString]
      rw [single, loadQueryString_step source (encodePair_ne_nil pair), makeword_of_none whole]
      simp only [decoded, loadQueryString_nil, List.map_cons, List.map_nil]
    | cons next rest =>
      have split : queryString (pair :: next :: rest) = encodePair pair ++ 38 :: queryString (next :: rest) := by
        simp [queryString, List.intercalate]
      rw [split, loadQueryString_step source (by simp), makeword_of_stop whole]
      simp only [decoded, List.map_cons] at later ⊢
      rw [later]

theorem makeword_pair_iff (pair : CString × CString) : makeword (pair.1 ++ 61 :: pair.2) 61 = pair ↔ 61 ∉ pair.1 := by
  constructor
  · intro same inside
    have name := congrArg Prod.fst same
    rw [makeword] at name
    rw [← name] at inside
    exact absurd (List.mem_takeWhile_imp inside) (by decide)
  · intro none
    apply makeword_of_stop
    rintro c member rfl
    exact none member

/-- The pairs that a request got from its query string. A request that is refused got none. -/
def queryParams : Except (Option ErrorObj) CgiRequestObj → List (CString × CString)
  | .error _ => []
  | .ok request =>
    (request.params.filter (·.source = .MS_PARAM_SOURCE_QUERYSTRING)).map fun param => (param.name, param.value)

/-- The requests that are decoded: all with the method `GET`, and those with `POST` whose body can be read. -/
def Decodes (env : CgiEnv) (raw_post_data : Option CString) (readPostBody : Except ErrorObj CString) : Prop :=
  env.REQUEST_METHOD = some (ascii "GET") ∨
    env.REQUEST_METHOD = some (ascii "POST") ∧ env.MS_NO_POST = none ∧ ∃ body, raw_post_data.elim readPostBody .ok = .ok body

theorem loadWords_source : ∀ param ∈ loadWords source stop word line, param.source = source := by
  fun_induction loadWords source stop word line with
  | case1 => simp
  | case2 c rest made name value split ih =>
    intro param member
    rcases List.mem_cons.mp member with rfl | later
    · rfl
    · exact ih param later

theorem filter_loadWords_same :
    (loadWords source stop word line).filter (·.source = source) = loadWords source stop word line := by
  apply List.filter_eq_self.mpr
  intro param member
  exact decide_eq_true (loadWords_source param member)

theorem filter_loadWords_other {other : MS_PARAM_SOURCE} (different : other ≠ source) :
    (loadWords other stop word line).filter (·.source = source) = [] := by
  apply List.filter_eq_nil_iff.mpr
  intro param member
  rw [loadWords_source param member, decide_eq_true_iff]
  exact different

theorem filter_loadCookies (env : CgiEnv) (request : CgiRequestObj) :
    (loadCookies env request).params.filter (·.source = .MS_PARAM_SOURCE_QUERYSTRING) =
      request.params.filter (·.source = .MS_PARAM_SOURCE_QUERYSTRING) := by
  unfold loadCookies
  split
  · rfl
  · rw [List.filter_append, filter_loadWords_other (by decide), List.append_nil]

theorem queryParams_loadParams {env : CgiEnv} {queryString : CString} (query : env.QUERY_STRING = some queryString)
    (contenttype : Option CString) {raw_post_data : Option CString} {readPostBody : Except ErrorObj CString}
    (decodes : Decodes env raw_post_data readPostBody) :
    queryParams (loadParams env contenttype raw_post_data readPostBody) =
      (loadQueryString .MS_PARAM_SOURCE_QUERYSTRING queryString).map fun param => (param.name, param.value) := by
  unfold loadParams
  rcases decodes with method | ⟨method, allowed, body, readable⟩
  · have other : ascii "GET" ≠ ascii "POST" := by simp [ascii]
    simp only [method, query]
    rw [if_neg (fun both => other both.1), if_pos trivial]
    by_cases empty : queryString.length = 0
    · rw [if_pos empty, List.length_eq_zero_iff.mp empty, loadQueryString_nil]
      rfl
    · rw [if_neg empty, queryParams, filter_loadCookies, loadQueryString, filter_loadWords_same]
  · simp only [method, query, readable, allowed, and_self, if_true]
    rw [queryParams, filter_loadCookies, List.filter_append, Option.map_some, Option.getD_some, loadQueryString,
      loadQueryString, filter_loadWords_same]
    have posted : ∀ condition : Prop, [Decidable condition] → ∀ line, (if condition then
        loadWords .MS_PARAM_SOURCE_POST 38 (fun param => makeword param 61) line else []).filter
          (·.source = .MS_PARAM_SOURCE_QUERYSTRING) = [] := by
      intro condition _ line
      split
      · exact filter_loadWords_other (by decide)
      · rfl
    rw [posted, List.nil_append]

/-- A query string gives back the pairs that it was made from exactly when no name has a `=`. -/
theorem loadParams_queryString_iff {pairs : List (CString × CString)}
    (text : ∀ pair ∈ pairs, 0 ∉ pair.1 ∧ 0 ∉ pair.2) {env : CgiEnv}
    (query : env.QUERY_STRING = some (queryString pairs)) (contenttype : Option CString)
    {raw_post_data : Option CString} {readPostBody : Except ErrorObj CString}
    (decodes : Decodes env raw_post_data readPostBody) :
    queryParams (loadParams env contenttype raw_post_data readPostBody) = pairs ↔ ∀ pair ∈ pairs, 61 ∉ pair.1 := by
  rw [queryParams_loadParams query contenttype decodes, loadQueryString_queryString _ text]
  conv_lhs => rhs; rw [← List.map_id pairs]
  rw [List.map_inj_left]
  exact forall₂_congr fun pair _ => makeword_pair_iff pair

def sampleRequest (pair : CString × CString) : CgiEnv where
  REQUEST_METHOD := some (ascii "GET")
  CONTENT_TYPE := none
  QUERY_STRING := some (queryString [pair])
  HTTP_COOKIE := none
  MS_NO_POST := none

theorem loadParams_queryString_iff_sample :
    queryParams (loadParams (sampleRequest ([97], [61])) none none (.ok [])) = [([97], [61])] ↔
      ∀ pair ∈ [(([97] : CString), ([61] : CString))], 61 ∉ pair.1 :=
  loadParams_queryString_iff (by decide) rfl none (.inl rfl)

theorem loadParams_splits_name :
    ¬ ∀ (pairs : List (CString × CString)) (env : CgiEnv), (∀ pair ∈ pairs, 0 ∉ pair.1 ∧ 0 ∉ pair.2) →
      (∀ pair ∈ pairs, pair.1 ≠ []) → env.QUERY_STRING = some (queryString pairs) →
      Decodes env none (.ok []) → queryParams (loadParams env none none (.ok [])) = pairs := by
  intro always
  have text : ∀ pair ∈ [(([97, 61, 98] : CString), ([99] : CString))], 0 ∉ pair.1 ∧ 0 ∉ pair.2 := by decide
  have same := always _ (sampleRequest ([97, 61, 98], [99])) text (by decide) rfl (.inl rfl)
  rw [queryParams_loadParams rfl none (.inl rfl), loadQueryString_queryString _ text] at same
  exact absurd same (by decide)

end MapServer
