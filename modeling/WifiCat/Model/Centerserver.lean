import WifiCat.Model.Conf

/-!
# Asking the auth server

`centerserver.c`: the auth server's name is resolved, a connection is tried five times, a
GET request is sent and the answer is read into a buffer until the connection ends.  What
happens outside during one such exchange is a `Network`.  Bytes are characters; a text
that was read may hold NULs, and the string functions see it up to the first one
(`cString`).
-/

set_option autoImplicit false

namespace WifiCat

open Scan

/-- SOURCE: common.h:31 -/
def MAX_BUF : ℕ := 4096
/-- SOURCE: conf.h:31 -/
def VERSION : Text := "0.1".toList

/-- The settings of the auth server, with `config_init`'s defaults.
SOURCE: conf.h:256-264, conf.c:309-315 -/
structure AuthServer where
  authServer : Text := "manage.yiroy.com".toList
  authPort : ℕ := 80
  authPath : Text := "/wificat/auth/".toList
  configPath : Text := "/wificat/config/".toList
  netTrafficPath : Text := "/wificat/nettraffic/".toList
  tokenVerifyPath : Text := "/wificat/tokenverify/".toList
  uid : ℤ := 0
deriving DecidableEq, Repr

/-- How a connection ends: the peer closes it, `read` fails, `select` times out or fails. -/
inductive Ending
  | closed | readError | selectTimeout | selectError
deriving DecidableEq, Repr

/-- What happens outside during one exchange: the answers to the name look-ups, whether the
connection attempts succeed, the pieces in which the answer arrives and how it ends. -/
structure Network where
  lookup : ℕ → Text → Option InAddr
  connect : ℕ → Bool
  chunks : List Text
  ending : Ending

/-- The text up to its first NUL. -/
def cString (s : Text) : Text := s.takeWhile (· != '\x00')

theorem cString_append_nul (v w : Text) : cString (v ++ '\x00' :: w) = cString v := by
  induction v with
  | nil => rfl
  | cons c v ih =>
    simp only [cString, List.cons_append, List.takeWhile_cons] at ih ⊢
    split
    · rw [ih]
    · rfl

theorem cString_of_not_mem {w : Text} (h : '\x00' ∉ w) : cString w = w := by
  refine List.takeWhile_eq_self_iff.mpr fun c hc => ?_
  have hne : c ≠ '\x00' := fun heq => h (heq ▸ hc)
  simpa using hne

theorem not_mem_cString (s : Text) : '\x00' ∉ cString s := fun h => by
  have hne := List.mem_takeWhile_imp h
  simp at hne

/-- What follows the first place where a text occurs: `strstr`, and a step over it. -/
def strstrAfter (needle : Text) : Text → Option Text
  | [] => if needle = [] then some [] else none
  | c :: s => if needle.isPrefixOf (c :: s) then some ((c :: s).drop needle.length)
    else strstrAfter needle s

theorem strstrAfter_suffix {needle s t : Text} (h : strstrAfter needle s = some t) : t <:+ s := by
  induction s with
  | nil =>
    rw [strstrAfter] at h
    split at h
    · cases h
      exact List.suffix_rfl
    · cases h
  | cons c s ih =>
    rw [strstrAfter] at h
    split at h
    · cases h
      exact List.drop_suffix _ _
    · exact (ih h).trans (List.suffix_cons c s)

/-- The end of the headers. -/
def CRLFCRLF : Text := "\r\n\r\n".toList

/-- `popular_servers`.
SOURCE: centerserver.c:25-29 -/
def popularServers : List Text := ["www.baidu.com".toList, "www.qq.com".toList]

/-- The look-ups of the popular servers from the `n`-th look-up on: whether one succeeds, and
the number of look-ups after it.
SOURCE: centerserver.c:44-54 -/
def lookupPopular (lookup : ℕ → Text → Option InAddr) : ℕ → List Text → Bool × ℕ
  | n, [] => (false, n)
  | n, server :: servers =>
    if (lookup n server).isSome then (true, n + 1) else lookupPopular lookup (n + 1) servers

/-- `_resolve_host` from the `n`-th look-up on: the address, or `-1`.  It calls itself as long
as the server is not found but a popular one is; `none` when it has not returned at the
given depth.
SOURCE: centerserver.c:22-85 -/
def resolveHost (lookup : ℕ → Text → Option InAddr) (hostname : Text) :
    ℕ → ℕ → Option (Option Text)
  | 0, _ => none
  | fuel + 1, n =>
    match lookup n hostname with
    | some addr => some (some (inetNtoa addr))
    | none =>
      let popular := lookupPopular lookup (n + 1) popularServers
      if popular.1 then resolveHost lookup hostname fuel popular.2 else some none

/-- `_resolve_host` with the level that it counts for its messages.
SOURCE: centerserver.c:22-85 -/
def resolveHostAt (lookup : ℕ → Text → Option InAddr) (hostname : Text) :
    ℕ → ℤ → ℕ → Option (Option Text)
  | 0, _, _ => none
  | fuel + 1, level, n =>
    let level := level + 1
    match lookup n hostname with
    | some addr => some (some (inetNtoa addr))
    | none =>
      let popular := lookupPopular lookup (n + 1) popularServers
      if popular.1 then resolveHostAt lookup hostname fuel level popular.2 else some none

/-- `connect_auth_server`: at most five attempts.
SOURCE: centerserver.c:131-147 -/
def connectAuthServer (connect : ℕ → Bool) : Bool := (List.range 5).any connect

/-- The loop that reads the answer, with the room that is left in the buffer: the bytes
read, `none` after an error.  A `read` into no room answers 0, like the end of the stream.
SOURCE: centerserver.c:182-217 -/
def readResponse (ending : Ending) : ℕ → List Text → Option Text
  | _, [] => if ending = .closed then some [] else none
  | room, chunk :: chunks =>
    if chunk = [] ∨ room = 0 then some []
    else if room < chunk.length then some (chunk.take room)
    else (readResponse ending (room - chunk.length) chunks).map (chunk ++ ·)

/-- The request as it is formatted into a buffer of `bufLen` bytes.
SOURCE: centerserver.c:168-178 -/
def httpRequest (ip path query version : Text) (bufLen : ℕ) : Text :=
  ("GET ".toList ++ path ++ query ++ " HTTP/1.0\r\n".toList ++
    "User-Agent: WiFiCat ".toList ++ version ++ "\r\n".toList ++
    "Host: ".toList ++ ip ++ "\r\n".toList ++
    "\r\n".toList).take (bufLen - 2)

/-- An exchange with the auth server: the request sent, if any, and the bytes received, if
`http_get_request` succeeded. -/
structure Exchange where
  sent : Option Text
  received : Option Text

/-- `http_get_request`.
SOURCE: centerserver.c:153-224 -/
def httpGetRequest (net : Network) (ip path query version : Text) (bufLen : ℕ) : Exchange :=
  if connectAuthServer net.connect then
    { sent := some (httpRequest ip path query version bufLen)
      received := readResponse net.ending (bufLen - 1) net.chunks }
  else { sent := none, received := none }

end WifiCat
