import WifiCat.Library.FormEncoding
import WifiCat.Model.Http

/-!
# The first contact of a client

A request that the firewall captured makes its sender a client.  Where a remote
authenticator is configured, the answer is a redirect that carries what the authenticator
needs; its URL goes through `httpdUrlEncode` and into the header buffer of `libhttpd`.
-/

set_option autoImplicit false

namespace WifiCat

open Scan

/-! ## libhttpd -/

/-- SOURCE: httpd.h:63 -/
def HTTP_MAX_HEADERS : ℕ := 1024

/-- The headers of a response before a handler runs.
SOURCE: api.c:391-392 -/
def serverHeader : Text := "Server: Hughes Technologies Embedded Server\n".toList

/-- `httpdAddHeader`: what does not fit the buffer is cut off.
SOURCE: api.c:846-856 -/
def httpdAddHeader (headers msg : Text) : Text :=
  let size : ℤ := HTTP_MAX_HEADERS - 2 - headers.length
  if size > 0 then
    let headers := headers ++ msg.take size.toNat
    if headers.getLast? = some '\n' then headers else headers ++ ['\n']
  else headers

/-- The bits of the printable characters: 1 is `xalpha`, 2 is `xpalpha`, 4 is `path`.
SOURCE: protocol.c:668-683 -/
def isAcceptable : List ℕ :=
  [0,7,7,0,7,0,7,7,7,7,7,6,7,7,7,4,
   7,7,7,7,7,7,7,7,7,7,0,0,0,0,0,0,
   7,7,7,7,7,7,7,7,7,7,7,7,7,7,7,7,
   7,7,7,7,7,7,7,7,7,7,7,0,0,0,0,7,
   0,7,7,7,7,7,7,7,7,7,7,7,7,7,7,7,
   7,7,7,7,7,7,7,7,7,7,7,0,0,0,0,0]

/-- SOURCE: protocol.c:672 -/
def URL_XPALPHAS : ℕ := 2

/-- `ACCEPTABLE`, under the mask `URL_XPALPHAS`.
SOURCE: protocol.c:686 -/
def acceptable (a : Char) : Bool :=
  a != '&' && 32 ≤ a.toNat && a.toNat < 128 &&
    isAcceptable.getD (a.toNat - 32) 0 &&& URL_XPALPHAS != 0

/-- `_httpd_escape`.
SOURCE: protocol.c:691-720 -/
def httpdEscape (str : Text) : Text := Query.percentEncode acceptable str

/-- `httpdUrlEncode`.
SOURCE: api.c:52-72 -/
def httpdUrlEncode (str : Text) : Text :=
  (httpdEscape str).map fun c => if c = ' ' then '+' else c

/-! ## The request and the configuration -/

/-- A request's method; the others are refused before any handler.
SOURCE: httpd.h:70-71 -/
inductive HttpMethod
  | get | post
deriving DecidableEq, Repr

/-- A request, as far as the first contact reads it.
SOURCE: httpd.h:102-118, 182-191 -/
structure CapturedRequest where
  clientAddr : Text
  method : HttpMethod
  host : Text
  path : Text
  query : Text
deriving DecidableEq, Repr

/-- The configuration, as far as it says where the authenticator is and how clients come back.
SOURCE: conf.h:65, 99, 181, 190-191, 227-237, conf.c:264, 271-274 -/
structure RemoteAuth extends AuthServer where
  remoteAuthAction : Option Text := some "yes".toList
  redirectURL : Option Text := none
  authdir : Text := "wificat_auth".toList

/-! ## The redirect -/

/-- The part of a `t_auth_target` that goes into the redirect. -/
structure RemoteTarget where
  authaction : Text
  token : Text
  redir : Text
deriving DecidableEq, Repr

/-- `http_nodogsplash_make_redir`.
SOURCE: http.c:638-649 -/
def httpMakeRedir (remote : RemoteAuth) (origurl : Text) : Text := remote.redirectURL.getD origurl

/-- `http_nodogsplash_make_authtarget`.
SOURCE: http.c:656-689 -/
def httpMakeAuthtarget (remote : RemoteAuth) (config : Config) (token redir : Text) :
    RemoteTarget :=
  { authaction := "http://".toList ++ config.gwAddress ++ ':' :: decimal (int32 config.gwPort) ++
      '/' :: remote.authdir ++ ['/']
    token := token
    redir := redir }

/-- The captured URL.
SOURCE: http.c:183-185 -/
def origUrl (r : CapturedRequest) : Text :=
  r.host ++ r.path ++ (if r.query = [] then [] else ['?']) ++ r.query

/-- The URL of `http_nodogsplash_redirect_remote_auth`.
SOURCE: http.c:426-439 -/
def remoteUrl (remote : RemoteAuth) (authtarget : RemoteTarget) (client : Client) : Text :=
  remote.authServer ++ ':' :: decimal (int32 remote.authPort) ++ remote.authPath ++
    "?uid=".toList ++ decimal remote.uid ++
    "&authaction=".toList ++ httpdUrlEncode authtarget.authaction ++
    "&redir=".toList ++ httpdUrlEncode authtarget.redir ++
    "&tok=".toList ++ httpdUrlEncode authtarget.token ++
    "&mac=".toList ++ httpdUrlEncode client.mac

/-- The header of `http_nodogsplash_redirect`.
SOURCE: http.c:572 -/
def locationHeader (url : Text) : Text := "Location: http://".toList ++ url

/-- What the first contact answers. -/
inductive ContactReply
  | methodNotAllowed
  | nothing
  | splash (authtarget : RemoteTarget) (client : Client)
  | redirect (headers : Text)
deriving DecidableEq, Repr

/-- `http_nodogsplash_serve_splash`: the splash page, or the redirect; no header was added to
the response before.
SOURCE: http.c:450-466, 567-579 -/
def httpServeSplash (remote : RemoteAuth) (authtarget : RemoteTarget) (client : Client) :
    ContactReply :=
  match remote.remoteAuthAction with
  | some _ =>
    .redirect (httpdAddHeader serverHeader (locationHeader (remoteUrl remote authtarget client)))
  | none => .splash authtarget client

/-- `http_nodogsplash_first_contact`.
SOURCE: http.c:159-198 -/
def httpFirstContact (remote : RemoteAuth) (moment : Moment) (r : CapturedRequest) (w : World) :
    ContactReply × World :=
  match r.method with
  | .post => (.methodNotAllowed, w)
  | .get =>
    let added := addClient moment r.clientAddr w
    match added.1 with
    | none => (.nothing, added.2)
    | some client =>
      let redir := httpMakeRedir remote (origUrl r)
      -- every client has a token since `_client_list_append`
      let authtarget := httpMakeAuthtarget remote w.config (client.token.getD []) redir
      (httpServeSplash remote authtarget client, added.2)

end WifiCat
