import WifiCat.Library.Buffer
import WifiCat.Library.WhileLoop
import WifiCat.Model.Centerserver

/-!
# The buffer of a request

`http_get_request` formats its request into the caller's buffer, sends it from there and
reads the answer over it, `read` by `read`, with the sizes in the machine's integers.
`Model.Centerserver` says what a caller sees of that; here is the code as it runs.
-/

set_option autoImplicit false

namespace WifiCat

open Scan

/-- The format of the request with its arguments; `%s` ends at a NUL.
SOURCE: centerserver.c:169-178 -/
def requestText (ip path query version : Text) : Text :=
  "GET ".toList ++ cString path ++ cString query ++ " HTTP/1.0\r\n".toList ++
    "User-Agent: WiFiCat ".toList ++ cString version ++ "\r\n".toList ++
    "Host: ".toList ++ cString ip ++ "\r\n".toList ++
    "\r\n".toList

/-- The buffer when the request is sent.
SOURCE: centerserver.c:167-178 -/
def requestBuffer (ip path query version : Text) (bufLen : BitVec 32) (buf : Buffer Char) :
    Buffer Char :=
  (buf.write 0 (List.replicate (bufLen.signExtend 64).toNat '\x00')).print '\x00' 0
    ((bufLen - 1).signExtend 64).toNat (requestText ip path query version)

/-- The variables of the loop that reads the answer, with the value it returned from the
function, if it did, and what is still to arrive. -/
structure ReadLoop where
  buf : Buffer Char
  totalbytes : BitVec 64 := 0
  done : Bool := false
  returned : Option ℤ := none
  arriving : List Text
deriving DecidableEq

/-- The size that is given to `read`, with `buf_len` converted to a `size_t`.
SOURCE: centerserver.c:196 -/
def readSize (bufLen : BitVec 32) (totalbytes : BitVec 64) : BitVec 64 :=
  bufLen.signExtend 64 - (totalbytes + 1)

/-- Does the loop go on? -/
def ReadLoop.goesOn (s : ReadLoop) : Bool := !s.done && s.returned.isNone

/-- A round of the loop: `select`, and `read` when there is something to read.  A `read`
takes what the size allows of the next piece that arrives.
SOURCE: centerserver.c:184-216 -/
def readRound (ending : Ending) (bufLen : BitVec 32) (s : ReadLoop) : ReadLoop :=
  match s.arriving with
  | [] => if ending = .closed then { s with done := true } else { s with returned := some (-1) }
  | chunk :: chunks =>
    let size := (readSize bufLen s.totalbytes).toNat
    let got := chunk.take size
    if got = [] then { s with done := true }
    else
      { s with
        buf := s.buf.write s.totalbytes.toNat got
        totalbytes := s.totalbytes + BitVec.ofNat 64 got.length
        arriving := if chunk.length ≤ size then chunks else chunk.drop size :: chunks }

/-- What `http_get_request` leaves: the value it returns, the buffer and the request that
was sent. -/
structure Requested where
  value : ℤ
  buf : Buffer Char
  sent : Option Text
deriving DecidableEq

/-- SOURCE: centerserver.c:161-164, 219-223 -/
def ReadLoop.answer (sent : Text) (s : ReadLoop) : Requested :=
  match s.returned with
  | some value => ⟨value, s.buf, some sent⟩
  | none => ⟨1, s.buf.write s.totalbytes.toNat ['\x00'], some sent⟩

/-- `http_get_request` with the caller's buffer; `none` when the rounds are not enough.
SOURCE: centerserver.c:153-224 -/
def httpGetRequestInto (fuel : ℕ) (net : Network) (ip path query version : Text)
    (buf : Buffer Char) (bufLen : BitVec 32) : Option Requested :=
  if connectAuthServer net.connect then
    let request := requestBuffer ip path query version bufLen buf
    (WhileLoop.run ReadLoop.goesOn (readRound net.ending bufLen) fuel
      { buf := request, arriving := net.chunks }).map (ReadLoop.answer (request.string '\x00'))
  else some ⟨-1, buf, none⟩

end WifiCat
