import WifiCat.Model.Http
import WifiCat.Model.Jsmn

/-!
# The configuration server's document

`config_from_server` of `conf.c`: the document is fetched and cut into tokens, and the loop
walks over them key by key, applying each value as it meets it.  The walk keeps a log of
what it does with memory: which entries of the token array it reads, what it frees, how much
it copies into its buffer, and the strings it hands on.  A run in which one of these is
undefined has no result (`ConfOutcome.undefined`).
-/

set_option autoImplicit false

namespace WifiCat

open Scan

/-- The keys whose value is kept as text.
SOURCE: conf.c:839-883 -/
inductive TextKey
  | authPath | configPath | netTrafficPath | gatewayName | redirectURL
deriving DecidableEq, Repr

/-- The keys whose value is a number.
SOURCE: conf.c:884-934 -/
inductive NumberKey
  | maxClients | clientIdleTimeout | clientForceTimeout | trafficControl | downloadLimit
  | uploadLimit
deriving DecidableEq, Repr

/-- The keys whose value is a list.
SOURCE: conf.c:935-997 -/
inductive ListKey
  | freeIPList | freeDomainList | blockedMACList | trustedMACList
deriving DecidableEq, Repr

/-- A key. -/
inductive ConfKey
  | text (key : TextKey)
  | number (key : NumberKey)
  | list (key : ListKey)
deriving DecidableEq, Repr

/-- The fields `config_init` sets to a string literal of the program; the others are copies, or
NULL.
SOURCE: conf.c:259, 274, 311-313 -/
def initLiteral : TextKey → Bool
  | .authPath => true
  | .configPath => true
  | .netTrafficPath => true
  | .gatewayName => false
  | .redirectURL => false

/-- The configuration, as far as the document sets it, and which text fields still point to a
string literal.
SOURCE: conf.h:48-110, 170-266, conf.c:249-331 -/
structure ServerConfig extends Config, AuthServer where
  gwName : Text := "wificat".toList
  redirectURL : Option Text := none
  literal : TextKey → Bool := initLiteral

/-- `atoi`; a number that does not fit is cut as on a machine with a `long` of 64 bits. -/
def atoi (s : Text) : ℤ :=
  let read := sign (s.dropWhile isSpace)
  let n : ℤ := Nat.ofDigitChars 10 (read.2.takeWhile Char.isDigit) 0
  int32 (max (-2 ^ 63) (min (2 ^ 63 - 1) (if read.1 then -n else n)))

/-! ## The fields -/

/-- Keep a text, in memory of its own.
SOURCE: conf.c:839-883 -/
def TextKey.assign (key : TextKey) (text : Text) (c : ServerConfig) : ServerConfig :=
  let c := { c with literal := Function.update c.literal key false }
  match key with
  | .authPath => { c with authPath := text }
  | .configPath => { c with configPath := text }
  | .netTrafficPath => { c with netTrafficPath := text }
  | .gatewayName => { c with gwName := text }
  | .redirectURL => { c with redirectURL := some text }

/-- SOURCE: conf.c:884-934 -/
def NumberKey.assign (key : NumberKey) (n : ℤ) (c : ServerConfig) : ServerConfig :=
  match key with
  | .maxClients => { c with maxclients := n }
  | .clientIdleTimeout => { c with clienttimeout := n }
  | .clientForceTimeout => { c with clientforceout := n }
  | .trafficControl => { c with trafficControl := decide (n ≠ 0) }
  | .downloadLimit => { c with downloadLimit := n }
  | .uploadLimit => { c with uploadLimit := n }

/-- The configuration, and how many names have been looked up for the free domains. -/
structure Applied where
  config : ServerConfig
  lookups : ℕ := 0

/-- The answers to the look-ups of the free domains. -/
abbrev Dns : Type := ℕ → Text → Option (List InAddr)

/-- Add an element of a list.
SOURCE: conf.c:941-994 -/
def ListKey.add (dns : Dns) (key : ListKey) (text : Text) (a : Applied) : Applied :=
  let set (r : ℤ × Config) : ServerConfig := { a.config with toConfig := r.2 }
  match key with
  | .freeIPList => { a with config := set (addToFreeIpList text a.config.toConfig) }
  | .freeDomainList =>
    { config := set (addToFreeDomainList (dns a.lookups text) a.config.toConfig)
      lookups := a.lookups + 1 }
  | .blockedMACList => { a with config := set (addToBlockedMacList text a.config.toConfig) }
  | .trustedMACList => { a with config := set (addToTrustedMacList text a.config.toConfig) }

/-- How much of the buffer is cleared before an element is copied.
SOURCE: conf.c:943, 960, 974, 990 -/
def ListKey.cleared : ListKey → ℕ
  | .freeDomainList => 128
  | _ => 32

/-! ## The walk -/

/-- What the walk does with memory. -/
inductive ConfAccess
  | token (i : ℕ)
  | free (literal : Bool)
  | copy (len : ℤ)
  | handed (text : Text) (tok : JsmnToken)

/-- The variables of the walk, and the log, the latest entry first. -/
structure ConfWalk where
  applied : Applied
  tmp : Text
  log : List ConfAccess := []

/-- The length the walk computes, `t.end - t.start`. -/
def JsmnToken.len (tok : JsmnToken) : ℤ :=
  (match tok.stop with | none => -1 | some e => (e : ℤ)) - tok.start

/-- `jsoneq`: the token is a string with this text.
SOURCE: conf.c:786-792 -/
def jsoneq (js : Text) (tok : JsmnToken) (s : Text) : Bool :=
  decide (tok.type = .string ∧ (s.length : ℤ) = tok.len ∧ tok.text js = s)

/-- The comparisons of the loop, in order.
SOURCE: conf.c:839-984 -/
def confKeys : List (Text × ConfKey) :=
  [("authPath".toList, .text .authPath),
   ("configPath".toList, .text .configPath),
   ("netTrafficPath".toList, .text .netTrafficPath),
   ("gatewayName".toList, .text .gatewayName),
   ("redirectURL".toList, .text .redirectURL),
   ("maxClients".toList, .number .maxClients),
   ("clientIdleTimeout".toList, .number .clientIdleTimeout),
   ("clientForceTimeout".toList, .number .clientForceTimeout),
   ("trafficControl".toList, .number .trafficControl),
   ("downloadLimit".toList, .number .downloadLimit),
   ("uploadLimit".toList, .number .uploadLimit),
   ("freeIPList".toList, .list .freeIPList),
   ("freeDomainList".toList, .list .freeDomainList),
   ("blockedMACList".toList, .list .blockedMACList),
   ("trustedMACList".toList, .list .trustedMACList)]

/-- The key a token is. -/
def confKey (js : Text) (tok : JsmnToken) : Option ConfKey :=
  (confKeys.find? fun entry => jsoneq js tok entry.1).map Prod.snd

/-- `memset` on the first `n` bytes of the buffer, then `strncpy` of a text. -/
def clearAndCopy (n : ℕ) (text : Text) (tmp : Text) : Text :=
  let cleared := List.replicate n '\x00' ++ tmp.drop n
  text ++ cleared.drop text.length

/-- A token is copied into the buffer, of which `n` bytes are cleared before; what a function
then reads there is a string.
SOURCE: conf.c:885-887, 942-944 -/
def ConfWalk.copy (js : Text) (n : ℕ) (tok : JsmnToken) (w : ConfWalk) : ConfWalk :=
  let tmp := clearAndCopy n (tok.text js) w.tmp
  { w with tmp := tmp, log := .handed (cString tmp) tok :: .copy tok.len :: w.log }

/-- A key with a text.
SOURCE: conf.c:839-883 -/
def confText (js : Text) (t : ℕ → JsmnToken) (key : TextKey) (i : ℕ) (w : ConfWalk) : ConfWalk :=
  { w with
    applied := { w.applied with config := key.assign ((t (i + 1)).text js) w.applied.config }
    log := .token (i + 1) :: .free (w.applied.config.literal key) :: w.log }

/-- A key with a number.
SOURCE: conf.c:884-934 -/
def confNumber (js : Text) (t : ℕ → JsmnToken) (key : NumberKey) (i : ℕ) (w : ConfWalk) :
    ConfWalk :=
  let w := ({ w with log := .token (i + 1) :: w.log }).copy js 32 (t (i + 1))
  { w with
    applied := { w.applied with config := key.assign (atoi (cString w.tmp)) w.applied.config } }

/-- An element of a list.
SOURCE: conf.c:940-946 -/
def confElement (js : Text) (t : ℕ → JsmnToken) (dns : Dns) (key : ListKey) (g : ℕ)
    (w : ConfWalk) : ConfWalk :=
  let w := ({ w with log := .token g :: w.log }).copy js key.cleared (t g)
  { w with applied := key.add dns (cString w.tmp) w.applied }

/-- A key with a list: its elements are the tokens behind the array's; `false` when there is
no array.
SOURCE: conf.c:935-949 -/
def confList (js : Text) (t : ℕ → JsmnToken) (dns : Dns) (key : ListKey) (i : ℕ) (w : ConfWalk) :
    Bool × ConfWalk :=
  let w := { w with log := .token (i + 1) :: w.log }
  if (t (i + 1)).type ≠ .array then (false, w)
  else
    (true, (List.range (t (i + 1)).size).foldl
      (fun w j => confElement js t dns key (i + j + 2) w) w)

/-- The loop over the keys, from the `i`-th of `res` tokens on: what the function returns, and
the variables.
SOURCE: conf.c:838-1003 -/
def confWalk (js : Text) (t : ℕ → JsmnToken) (dns : Dns) (res : ℕ) :
    ℕ → ℕ → ConfWalk → ℤ × ConfWalk
  | 0, _, w => (1, w)
  | fuel + 1, i, w =>
    if i < res then
      let w := { w with log := .token i :: w.log }
      match confKey js (t i) with
      | some (.text key) => confWalk js t dns res fuel (i + 2) (confText js t key i w)
      | some (.number key) => confWalk js t dns res fuel (i + 2) (confNumber js t key i w)
      | some (.list key) =>
        let r := confList js t dns key i w
        if r.1 then confWalk js t dns res fuel (i + (t (i + 1)).size + 2) r.2 else (-4, r.2)
      | none => (-4, w)
    else (1, w)

/-! ## The function -/

/-- What a call takes from outside: the exchange with the server, how long name look-ups may
go on, the answers to the look-ups of the free domains, and what stands in the memory of the
buffer and of the tokens before they are written. -/
structure ConfMoment where
  net : Network
  fuel : ℕ
  dns : Dns
  tmp : Text
  garbage : ℕ → JsmnToken

/-- The token array: what the tokenizer has written, and what was there before. -/
def tokenArray (garbage : ℕ → JsmnToken) (tokens : List JsmnToken) (i : ℕ) : JsmnToken :=
  tokens.getD i (garbage i)

/-- The text of a document is tokenized and walked over: the number of tokens, what the function
returns and the variables.
SOURCE: conf.c:819-1003 -/
def confFromJson (m : ConfMoment) (json : Text) (c : ServerConfig) : ℕ × ℤ × ConfWalk :=
  let w : ConfWalk := { applied := { config := c }, tmp := m.tmp }
  match jsmnParse 256 json with
  | .error _ => (0, -4, w)
  | .ok [] => (0, -4, w)
  | .ok (tok :: toks) =>
    let w := { w with log := [.token 0] }
    let res := toks.length + 1
    if tok.type ≠ .object then (res, -4, w)
    else (res, confWalk json (tokenArray m.garbage (tok :: toks)) m.dns res res 1 w)

/-- The exchange with the configuration server, `none` when its name is not resolved.
SOURCE: conf.c:798-807 -/
def configExchange (m : ConfMoment) (c : ServerConfig) : Option (Option Exchange) :=
  (resolveHost m.net.lookup c.authServer m.fuel 0).map fun resolved =>
    resolved.map fun ip =>
      httpGetRequest m.net ip c.configPath (("?uid=".toList ++ decimal c.uid).take 31) VERSION 8192

/-- The access is defined, with `res` tokens written. -/
def ConfAccess.defined (res : ℕ) : ConfAccess → Bool
  | .token i => decide (i < res)
  | .free literal => !literal
  | .copy len => decide (0 ≤ len ∧ len < 128)
  | .handed _ _ => true

/-- How a call ends: with a value and the configuration, or no one can say how. -/
inductive ConfOutcome
  | returned (res : ℤ) (config : ServerConfig)
  | undefined

/-- `config_from_server`; `none` when the name look-ups have not ended.
SOURCE: conf.c:794-1004 -/
def configFromServer (m : ConfMoment) (c : ServerConfig) : Option ConfOutcome :=
  (configExchange m c).map fun exchange =>
    match exchange with
    | none => .returned (-1) c
    | some exchange =>
      match exchange.received with
      | none => .returned (-2) c
      | some buf =>
        match strstrAfter CRLFCRLF (cString buf) with
        | none => .returned (-3) c
        | some json =>
          let r := confFromJson m json c
          if r.2.2.log.all (ConfAccess.defined r.1) then
            .returned r.2.1 r.2.2.applied.config
          else .undefined

end WifiCat
