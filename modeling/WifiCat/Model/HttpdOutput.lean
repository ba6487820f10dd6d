import WifiCat.Library.Buffer
import WifiCat.Library.TextLines
import WifiCat.Model.HttpdThread

/-!
# Pages with variables

`httpdOutput` writes a line of a page, in which `$` and a name stand for the value of a variable of
the request.  The splash page and the page of messages set such variables, and are then read from
their files line by line.
-/

set_option autoImplicit false

namespace WifiCat

open Scan

/-! ## httpdOutput -/

/-- A character of a name: `isalnum`, or `_`.
SOURCE: api.c:890 -/
def isVarChar (c : Char) : Bool := c.isAlphanum || c == '_'

/-- The arrays of `httpdOutput`, the place that is written next, and what is counted. -/
structure HttpdOutputState where
  buf : Buffer Char
  varName : Buffer Char
  dest : ℕ := 0
  count : ℕ := 0

/-- A name behind a `$`: its value, or itself.  The length of a value is taken where `dest` already
stands behind it, so that nothing is counted.
SOURCE: api.c:883-914 -/
def httpdOutputName (vars : List HttpVar) (name : Text) (st : HttpdOutputState) :
    HttpdOutputState :=
  let varName := (st.varName.write 0 name).write name.length ['\x00']
  match httpdGetVariableByName vars name with
  | some curVar =>
    { st with
      varName := varName
      buf := st.buf.write st.dest (curVar.value ++ ['\x00'])
      dest := st.dest + curVar.value.length }
  | none =>
    { varName := varName
      buf := (st.buf.write st.dest ['$']).write (st.dest + 1) (name ++ ['\x00'])
      dest := st.dest + 1 + name.length
      count := st.count + (1 + name.length) }

/-- The loop of `httpdOutput`, on what is left of the text behind the `skip` characters of a name.
SOURCE: api.c:876-918 -/
def httpdOutputLoop (vars : List HttpVar) : Text → ℕ → HttpdOutputState → HttpdOutputState
  | [], _, st => st
  | _ :: src, skip + 1, st => httpdOutputLoop vars src skip st
  | c :: src, 0, st =>
    if HTTP_MAX_LEN ≤ st.count then st
    else if c = '$' then
      let name := (src.takeWhile isVarChar).take 80
      httpdOutputLoop vars src name.length (httpdOutputName vars name st)
    else
      httpdOutputLoop vars src 0
        { st with
          buf := st.buf.write st.dest [c]
          dest := st.dest + 1
          count := st.count + 1 }

/-- What `httpdOutput` writes, and whether it has stored something outside its arrays. -/
structure HttpdOutputResult where
  written : Text
  outside : Bool
deriving DecidableEq, Repr

/-- `httpdOutput`, on what stands in its arrays before.
SOURCE: api.c:866-923 -/
def httpdOutput (vars : List HttpVar) (buf varName msg : Text) : HttpdOutputResult :=
  let st := httpdOutputLoop vars msg 0 { buf := ⟨buf, false⟩, varName := ⟨varName, false⟩ }
  let buf := st.buf.write st.dest ['\x00']
  { written := cString buf.bytes, outside := buf.outside || st.varName.outside }

/-! ## Pages -/

/-- What the pages show beside the rest of the configuration.
SOURCE: conf.h:54, 175, 179, util.c:386-389 -/
structure PageConfig where
  gwName : Text := "wificat".toList
  gwMac : Text
  uptime : Text

/-- `denyaction` of a `t_auth_target`.
SOURCE: http.c:677 -/
def httpDenyAction (server : HttpdServer) (config : Config) : Text :=
  "http://".toList ++ config.gwAddress ++ ':' :: decimal (int32 config.gwPort) ++
    '/' :: server.dirs.denydir ++ ['/']

/-- The variables of the splash page, which is never served with a message.
SOURCE: http.c:195, 468-499 -/
def splashVariables (server : HttpdServer) (page : PageConfig) (authtarget : RemoteTarget)
    (client : Client) (w : World) : List (Text × Text) :=
  [("error_msg".toList, []),
   ("gatewayname".toList, page.gwName),
   ("tok".toList, authtarget.token),
   ("redir".toList, authtarget.redir),
   ("authaction".toList, authtarget.authaction),
   ("denyaction".toList, httpDenyAction server w.config),
   ("authtarget".toList, httpAuthLink authtarget),
   ("clientip".toList, client.ip),
   ("clientmac".toList, client.mac),
   ("gatewaymac".toList, page.gwMac),
   ("nclients".toList, decimal w.clients.clientCount),
   ("maxclients".toList, decimal w.config.maxclients),
   ("uptime".toList, page.uptime),
   ("imagesdir".toList, '/' :: server.dirs.imagesdir),
   ("pagesdir".toList, '/' :: server.dirs.pagesdir)]

/-- The variables of the page of messages.
SOURCE: http.c:533-548 -/
def infoVariables (server : HttpdServer) (page : PageConfig) (title content : Text) :
    List (Text × Text) :=
  [("gatewayname".toList, page.gwName),
   ("version".toList, VERSION),
   ("title".toList, title),
   ("content".toList, content),
   ("imagesdir".toList, '/' :: server.dirs.imagesdir),
   ("pagesdir".toList, '/' :: server.dirs.pagesdir)]

/-- Variables are added to those of the request. -/
def addVariables (vars : List HttpVar) (ps : List (Text × Text)) : List HttpVar :=
  ps.foldl (fun vars p => httpdAddVariable vars p.1 p.2) vars

/-- A page is piped from its file, with what stands in the arrays of `httpdOutput` before each of
its calls.
SOURCE: http.c:511-513, 559-561 -/
def pipePage (vars : List HttpVar) (arrays : ℕ → Text × Text) (page : Text) :
    List HttpdOutputResult :=
  (TextLines.pieces MAX_BUF page).mapIdx fun i line =>
    httpdOutput vars (arrays i).1 (arrays i).2 line

/-- `http_nodogsplash_serve_info`, with the file of the page, if it can be opened.
SOURCE: http.c:522-565 -/
def serveInfoPage (server : HttpdServer) (page : PageConfig) (title content : Text)
    (vars : List HttpVar) (arrays : ℕ → Text × Text) (file : Option Text) :
    List HttpdOutputResult :=
  match file with
  | none => []
  | some text =>
    pipePage (addVariables vars (infoVariables server page title content)) arrays text

/-- `http_nodogsplash_serve_splash` without a remote authenticator, with the files of the two pages.
SOURCE: http.c:450-518 -/
def serveSplashPage (server : HttpdServer) (page : PageConfig) (authtarget : RemoteTarget)
    (client : Client) (w : World) (vars : List HttpVar) (arrays : ℕ → Text × Text)
    (splash info : Option Text) : List HttpdOutputResult :=
  let vars := addVariables vars (splashVariables server page authtarget client w)
  match splash with
  | none =>
    serveInfoPage server page "Nodogsplash Error".toList "Failed to open splash page".toList vars
      arrays info
  | some text => pipePage vars arrays text

end WifiCat
