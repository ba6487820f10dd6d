import WifiCat.Library.Buffer
import WifiCat.Library.PieceReader
import WifiCat.Model.Redirect

/-!
# Reading a request

`libhttpd` reads a request line by line out of what arrives on the connection: the method and the
path, the headers, and then the variables that stand behind the path's `?`.  The lines go through
one buffer on the stack, which is never cleared.
-/

set_option autoImplicit false

namespace WifiCat

open Scan PieceReader

/-- SOURCE: httpd.h:61-64 -/
def HTTP_MAX_LEN : ℕ := 10240
def HTTP_MAX_URL : ℕ := 1024
def HTTP_MAX_AUTH : ℕ := 128

/-- `strncpy` into an array, whose last byte is then a NUL. -/
def strncpyInto (size : ℕ) (s : Text) : Text := s.take (size - 1)

/-! ## Lines -/

/-- A round of `_httpd_readLine`, with the number of characters stored so far.
SOURCE: protocol.c:107-130 -/
def httpdReadLineStep (len : ℕ) (st : ℕ × Buffer Char) (c : Char) :
    (ℕ × Buffer Char) ⊕ Buffer Char :=
  let count := st.1
  let buf := st.2
  if c = '\n' ∨ 128 ≤ c.toNat then .inr (buf.write count ['\x00'])
  else if c = '\r' then .inl (count, buf)
  else
    let buf := buf.write count [c]
    if count + 1 < len then .inl (count + 1, buf) else .inr (buf.write (count + 1) ['\x00'])

/-- `_httpd_readLine`, for a length that is not 0; `none` when the connection ends before the
line does.
SOURCE: protocol.c:98-133 -/
def httpdReadLine (r : Reader Char) (buf : Buffer Char) (len : ℕ) :
    Option (Buffer Char × Reader Char) :=
  r.feed (httpdReadLineStep len) (0, buf)

/-! ## The path -/

/-- SOURCE: protocol.c:733-749 -/
def removeSlashes : Text → Text
  | '/' :: '/' :: s => removeSlashes ('/' :: s)
  | c :: s => c :: removeSlashes s
  | [] => []

/-- SOURCE: protocol.c:752-768 -/
def removeDots : Text → Text
  | '/' :: '.' :: '/' :: s => removeDots ('/' :: s)
  | c :: s => c :: removeDots s
  | [] => []

/-- The third pass, with what is written so far and the place of the last `/` in it.  The place
stays as it is when an element is removed.
SOURCE: protocol.c:770-793 -/
def removeParents : Text → ℕ → Text → Text
  | out, last, '/' :: '.' :: '.' :: '/' :: s => removeParents (out.take last) last ('/' :: s)
  | out, _, '/' :: s => removeParents (out ++ ['/']) out.length s
  | out, last, c :: s => removeParents (out ++ [c]) last s
  | out, _, [] => out

/-- `_httpd_sanitiseUrl`.
SOURCE: protocol.c:723-794 -/
def httpdSanitiseUrl (url : Text) : Text := removeParents [] 0 (removeDots (removeSlashes url))

/-! ## Variables -/

/-- A variable, with the values behind the first one.
SOURCE: httpd.h:121-126 -/
structure HttpVar where
  name : Text
  value : Text
  nextValues : List Text := []
deriving DecidableEq, Repr

/-- `httpdGetVariableByName`.
SOURCE: api.c:89-101 -/
def httpdGetVariableByName (vars : List HttpVar) (name : Text) : Option HttpVar :=
  vars.find? fun var => var.name = name

/-- The loop of `httpdAddVariable`.
SOURCE: api.c:171-192 -/
def httpdAppendVariable (name value : Text) : List HttpVar → List HttpVar
  | [] => [{ name := name, value := value }]
  | var :: vars =>
    if var.name ≠ name then var :: httpdAppendVariable name value vars
    else { var with nextValues := var.nextValues ++ [value] } :: vars

/-- `httpdAddVariable`.  The variable's name is the one without the blanks, and so is the one
that the others are compared with.
SOURCE: api.c:159-193 -/
def httpdAddVariable (vars : List HttpVar) (name value : Text) : List HttpVar :=
  httpdAppendVariable (name.dropWhile fun c => c = ' ' ∨ c = '\t') value vars

/-- The loop of `_httpd_storeData`, with what is left of the query, the memory of the name and the
place in it, and the value.  A field without `=` gets no terminator behind its name.
SOURCE: protocol.c:358-404 -/
def httpdStoreLoop : Text → Text → ℕ → Option Text → List HttpVar → List HttpVar
  | [], _, _, none, vars => vars
  | [], var, _, some val, vars => httpdAddVariable vars (cString var) (httpdValue val)
  | '=' :: cp, var, cp2, _, vars => httpdStoreLoop cp (var.set cp2 '\x00') cp2 (some []) vars
  | '&' :: cp, var, _, val, vars =>
    httpdStoreLoop cp var 0 none
      (httpdAddVariable vars (cString var) (httpdValue (val.getD [])))
  | c :: cp, var, cp2, some val, vars => httpdStoreLoop cp var cp2 (some (val ++ [c])) vars
  | c :: cp, var, cp2, none, vars => httpdStoreLoop cp (var.set cp2 c) (cp2 + 1) none vars

/-- `_httpd_storeData`.
SOURCE: protocol.c:340-406 -/
def httpdStoreData (vars : List HttpVar) (query : Text) : List HttpVar :=
  httpdStoreLoop query (List.replicate query.length '\x00') 0 none vars

/-! ## Credentials -/

/-- SOURCE: protocol.c:190-196 -/
def six2pr : Text := "ABCDEFGHIJKLMNOPQRSTUVWXYZabcdefghijklmnopqrstuvwxyz0123456789+/".toList

/-- `pr2six`: 64 for a character that is not in the alphabet.
SOURCE: protocol.c:198-220 -/
def pr2six (c : Char) : ℕ := six2pr.idxOf c

/-- A byte of an expression, as it is stored into a `char`. -/
def byteChar (n : ℕ) : Char := Char.ofNat (n % 256)

/-- The loop of `_httpd_decode`: three bytes for four characters, also for a last group that is
not complete.
SOURCE: protocol.c:241-250 -/
def httpdDecodeLoop (nprbytes at' : ℕ) (bufin : Text) (bufplain : Buffer Char) : Buffer Char :=
  if nprbytes = 0 then bufplain
  else
    let dec (i : ℕ) : ℕ := pr2six (bufin.getD i '\x00')
    httpdDecodeLoop (nprbytes - 4) (at' + 3) (bufin.drop 4)
      (((bufplain.write at' [byteChar (dec 0 <<< 2 ||| dec 1 >>> 4)]).write (at' + 1)
        [byteChar (dec 1 <<< 4 ||| dec 2 >>> 2)]).write (at' + 2)
        [byteChar (dec 2 <<< 6 ||| dec 3)])
termination_by nprbytes
decreasing_by omega

/-- `_httpd_decode`, of the characters that stand in memory from a place on.  What the loop leaves
of `nprbytes` differs from it by a multiple of four.  The mark of a buffer is about what is stored:
a group that is not complete also reads what stands behind the credential, maybe behind the array of
the line, and a byte from 128 on is a negative index of `pr2six`; such a read is taken for one of a
character that is not in the alphabet, and not marked.
SOURCE: protocol.c:185-264 -/
def httpdDecode (bufcoded : Text) (bufplain : Buffer Char) (outbufsize : ℕ) : Buffer Char :=
  let bufcoded := bufcoded.dropWhile fun c => c = ' ' ∨ c = '\t'
  let count := (bufcoded.takeWhile fun c => pr2six c ≤ 63).length
  let nbytesdecoded := (count + 3) / 4 * 3
  let nprbytes := if nbytesdecoded > outbufsize then outbufsize * 4 / 3 else count
  let bufplain := httpdDecodeLoop nprbytes 0 bufcoded bufplain
  let nbytesdecoded :=
    if nprbytes % 4 = 0 then nbytesdecoded
    else if pr2six (bufcoded.getD ((nprbytes + 3) / 4 * 4 - 2) '\x00') > 63 then nbytesdecoded - 2
    else nbytesdecoded - 1
  bufplain.write nbytesdecoded ['\x00']

/-! ## The request -/

/-- What is read of a request; every array starts with NULs, and the method is `none` before it
is set.
SOURCE: httpd.h:102-118, api.c:346-351 -/
structure HttpReq where
  method : Option HttpMethod := none
  path : Text := []
  query : Text := []
  host : Text := []
  authUser : Text := []
  authPassword : Text := []
  authLength : ℕ := 0
deriving DecidableEq, Repr

/-- The state of `httpdReadRequest`; `authOutside` says that `authBuf` was overrun. -/
structure HttpdReading where
  buf : Buffer Char
  request : HttpReq := {}
  authOutside : Bool := false

/-- The method, by its name.
SOURCE: api.c:411-414 -/
def httpdMethod (name : Text) : Option HttpMethod :=
  if sameCase name "POST".toList then some .post
  else if sameCase name "GET".toList then some .get
  else none

/-- The first line: the name of the method, and the state behind it.  A line that ends with the
name leads behind its NUL.
SOURCE: api.c:407-439 -/
def httpdRequestLine (st : HttpdReading) : Text × HttpdReading :=
  let cp2 := (st.buf.bytes.takeWhile Char.isAlpha).length
  let buf := st.buf.write cp2 ['\x00']
  let name := cString buf.bytes
  match httpdMethod name with
  | none => (name, { st with buf := buf })
  | some method =>
    let cp := (buf.bytes.drop (cp2 + 1)).dropWhile (· = ' ')
    let word := cp.takeWhile fun c => c ≠ ' ' ∧ c ≠ '\x00'
    let place := buf.bytes.length - cp.length + word.length
    (name,
      { st with
        buf := buf.write place ['\x00']
        request :=
          { st.request with
            method := some method
            path := httpdSanitiseUrl (strncpyInto HTTP_MAX_URL word) } })

/-- `strncasecmp` with the length of the second text. -/
def startsCase (line header : Text) : Bool := sameCase (line.take header.length) header

/-- The header `Authorization`.  What was in `authBuf` before is never read, unless the decoder
overruns it.
SOURCE: api.c:483-513 -/
def httpdAuthorization (st : HttpdReading) : HttpdReading :=
  if "Basic ".toList.isPrefixOf (st.buf.bytes.drop 15) then
    let decoded := httpdDecode (st.buf.bytes.drop 21) { bytes := List.replicate 100 '\x00' } 100
    let authBuf := cString decoded.bytes
    let user := authBuf.takeWhile (· ≠ ':')
    { st with
      authOutside := st.authOutside || decoded.outside
      request :=
        { st.request with
          authLength := authBuf.length
          authPassword :=
            if ':' ∈ authBuf then strncpyInto HTTP_MAX_AUTH (authBuf.drop (user.length + 1))
            else st.request.authPassword
          authUser := strncpyInto HTTP_MAX_AUTH user } }
  else st

/-- A header line.
SOURCE: api.c:483-541 -/
def httpdHeader (st : HttpdReading) : HttpdReading :=
  let line := cString st.buf.bytes
  let st := if startsCase line "Authorization: ".toList then httpdAuthorization st else st
  if startsCase line "Host: ".toList then
    { st with request := { st.request with host := strncpyInto HTTP_MAX_URL (line.drop 6) } }
  else st

/-- The header lines, up to an empty one.
SOURCE: api.c:401-471 -/
def httpdReadHeaders (st : HttpdReading) (r : Reader Char) : HttpdReading :=
  match _h : httpdReadLine r st.buf HTTP_MAX_LEN with
  | none => st
  | some (buf, r') =>
    if cString buf.bytes = [] then { st with buf := buf }
    else httpdReadHeaders (httpdHeader { st with buf := buf }) r'
termination_by r.stream.length
decreasing_by exact feed_length _h

/-- The variables of a request.
SOURCE: api.c:601-609 -/
def httpdUrlData (request : HttpReq) : HttpReq × List HttpVar :=
  if '?' ∈ request.path then
    let path := request.path.takeWhile (· ≠ '?')
    let cp := request.path.drop (path.length + 1)
    ({ request with path := path, query := strncpyInto HTTP_MAX_URL cp }, httpdStoreData [] cp)
  else (request, [])

/-- SOURCE: httpd.h:83 -/
def HTTP_METHOD_ERROR : Text := "\n<B>ERROR : Method Not Implemented</B>\n\n".toList

/-- What `httpdReadRequest` ends with: its value, what it has written, the request, and whether
something was stored outside an array. -/
structure HttpdRead where
  rc : ℤ
  written : Text := []
  request : HttpReq := {}
  vars : List HttpVar := []
  outside : Bool

/-- INTERNAL: the end of `httpdReadRequest`. -/
def HttpdReading.finish (st : HttpdReading) : HttpdRead :=
  { rc := 0
    request := (httpdUrlData st.request).1
    vars := (httpdUrlData st.request).2
    outside := st.buf.outside || st.authOutside }

/-- `httpdReadRequest`; `stack` is what stands in the place of its buffer before.
SOURCE: api.c:381-612 -/
def httpdReadRequest (stack : Text) (r : Reader Char) : HttpdRead :=
  let buf : Buffer Char := { bytes := stack }
  match httpdReadLine r buf HTTP_MAX_LEN with
  | none => HttpdReading.finish { buf := buf }
  | some (buf, r) =>
    let first := httpdRequestLine { buf := buf }
    if first.2.request.method = none then
      { rc := -1, written := HTTP_METHOD_ERROR ++ first.1, outside := first.2.buf.outside }
    else (httpdReadHeaders first.2 r).finish

end WifiCat
