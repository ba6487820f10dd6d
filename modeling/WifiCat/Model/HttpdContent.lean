import WifiCat.Library.NameTree
import WifiCat.Model.HttpdRequest

/-!
# The contents of the web server

`main_loop` registers directories of files and functions with `libhttpd`, which keeps them in a
tree of directories; `httpdProcessRequest` looks up the directory and the entry of a path.
-/

set_option autoImplicit false

namespace WifiCat

open Scan NameTree

/-! ## Entries -/

/-- The types of the entries that are registered.
SOURCE: httpd.h:76-81 -/
inductive HttpContentType
  | cFunct | wildcard | cWildcard
deriving DecidableEq, Repr

/-- The functions that are registered.
SOURCE: gateway.c:273-277 -/
inductive HttpCallback
  | index | auth | deny | notFound
deriving DecidableEq, Repr

/-- An entry of a directory; no `preload` is registered.
SOURCE: httpd.h:128-137 -/
structure HttpContent where
  name : Option Text
  type : HttpContentType
  indexFlag : Bool := false
  function : HttpCallback := .notFound
  path : Text := []
deriving DecidableEq, Repr

/-- A directory.
SOURCE: httpd.h:149-154 -/
abbrev HttpDir : Type := Tree Text HttpContent

/-- The words that `strtok` finds between slashes. -/
def strtokSlash (s : Text) : List Text := (fields '/' s).filter (· ≠ [])

/-- `_httpd_findContentDir`, which does not create the directory.
SOURCE: protocol.c:468-511 -/
def httpdFindContentDir (content : HttpDir) (dir : Text) : Option HttpDir :=
  content.find (strtokSlash (strncpyInto HTTP_MAX_URL dir))

/-- `_httpd_findContentEntry`.
SOURCE: protocol.c:514-533 -/
def httpdFindContentEntry (dir : HttpDir) (entryName : Text) : Option HttpContent :=
  dir.entries.find? fun entry =>
    entry.type = .wildcard ∨ entry.type = .cWildcard ∨ entryName = [] ∧ entry.indexFlag ∨
      entry.name = some entryName

/-- An entry is put before the others of its directory, which is created.
SOURCE: protocol.c:490-503, api.c:725-732 -/
def httpdAddContent (content : HttpDir) (dir : Text) (entry : HttpContent) : HttpDir :=
  content.insert entry (strtokSlash (strncpyInto HTTP_MAX_URL dir))

/-- `httpdAddWildcardContent`: a path without a slash at its start is one below the base.
SOURCE: api.c:711-745 -/
def httpdAddWildcardContent (fileBasePath : Text) (content : HttpDir) (dir path : Text) :
    HttpDir :=
  httpdAddContent content dir
    { name := none
      type := .wildcard
      path :=
        if path.head? = some '/' then path
        else strncpyInto HTTP_MAX_URL (fileBasePath ++ '/' :: path) }

/-- `httpdAddCContent`.
SOURCE: api.c:768-791 -/
def httpdAddCContent (content : HttpDir) (dir name : Text) (indexFlag : Bool)
    (function : HttpCallback) : HttpDir :=
  httpdAddContent content dir
    { name := some name, type := .cFunct, indexFlag := indexFlag, function := function }

/-- `httpdAddCWildcardContent`.
SOURCE: api.c:794-816 -/
def httpdAddCWildcardContent (content : HttpDir) (dir : Text) (function : HttpCallback) :
    HttpDir :=
  httpdAddContent content dir { name := none, type := .cWildcard, function := function }

/-! ## The server's contents -/

/-- The directories of the configuration.
SOURCE: conf.h:60-66, 185-192, conf.c:266-272 -/
structure WebDirs where
  webroot : Text := "/etc/wificat/htdocs".toList
  splashpage : Text := "wificat.html".toList
  infoskelpage : Text := "infoskel.html".toList
  imagesdir : Text := "images".toList
  pagesdir : Text := "pages".toList
  authdir : Text := "wificat_auth".toList
  denydir : Text := "wificat_deny".toList
deriving DecidableEq, Repr

/-- The content before anything is registered.
SOURCE: api.c:215-217 -/
def httpdCreateContent : HttpDir := .node [] [] []

/-- What `main_loop` registers.
SOURCE: gateway.c:258-276 -/
def webserverContent (dirs : WebDirs) : HttpDir :=
  let fileBasePath := strncpyInto HTTP_MAX_URL dirs.webroot
  let content := httpdCreateContent
  let content := httpdAddWildcardContent fileBasePath content dirs.imagesdir dirs.imagesdir
  let content := httpdAddWildcardContent fileBasePath content dirs.pagesdir dirs.pagesdir
  let content := httpdAddCContent content "/".toList [] false .index
  let content := httpdAddCWildcardContent content dirs.authdir .auth
  httpdAddCWildcardContent content dirs.denydir .deny

/-! ## Requests -/

/-- Where files are: whether `stat` finds something, and what `open` and `read` give of it. -/
structure HttpFiles where
  stat : Text → Bool
  content : Text → Text

/-- What a request leads to: a function, with the content type that its answer has, or a file. -/
inductive HttpdOutcome
  | invalidPath
  | call (callback : HttpCallback) (contentType : Text)
  | file (path contentType content : Text)
deriving DecidableEq, Repr

/-- The content type of a response, before one is set.
SOURCE: api.c:393 -/
def defaultContentType : Text := "text/html".toList

/-- The content types by the suffix of a file.
SOURCE: protocol.c:615-623 -/
def suffixTypes : List (Text × Text) :=
  [(".gif".toList, "image/gif".toList), (".jpg".toList, "image/jpeg".toList),
   (".xbm".toList, "image/xbm".toList), (".png".toList, "image/png".toList)]

/-- What stands behind the last `c`, if there is one: `strrchr`. -/
def strrchr (s : Text) (c : Char) : Option Text :=
  if c ∈ s then some (c :: (s.reverse.takeWhile (· ≠ c)).reverse) else none

/-- The content type of a file.
SOURCE: protocol.c:611-624 -/
def fileContentType (path : Text) : Text :=
  match strrchr path '.' with
  | none => defaultContentType
  | some suffix =>
    ((suffixTypes.find? fun entry => sameCase suffix entry.1).map Prod.snd).getD defaultContentType

/-- `_httpd_sendFile`.  The time of the client's copy is never read from a request, so that the
file is always sent.
SOURCE: protocol.c:604-640 -/
def httpdSendFile (files : HttpFiles) (path : Text) : HttpdOutcome :=
  if files.stat path then .file path (fileContentType path) (files.content path)
  else .call .notFound (fileContentType path)

/-- The directory and the entry of a path.
SOURCE: api.c:959-972 -/
def httpdSplitPath (path : Text) : Option (Text × Text) :=
  let dirName := strncpyInto HTTP_MAX_URL path
  (strrchr dirName '/').map fun cp =>
    let place := dirName.length - cp.length
    (if place ≠ 0 then dirName.take place else dirName.take 1, strncpyInto HTTP_MAX_URL (cp.drop 1))

/-- `httpdProcessRequest`.
SOURCE: api.c:949-1018 -/
def httpdProcessRequest (files : HttpFiles) (content : HttpDir) (path : Text) : HttpdOutcome :=
  match httpdSplitPath path with
  | none => .invalidPath
  | some (dirName, entryName) =>
    match httpdFindContentDir content dirName with
    | none => .call .notFound defaultContentType
    | some dir =>
      match httpdFindContentEntry dir entryName with
      | none => .call .notFound defaultContentType
      | some entry =>
        match entry.type with
        | .cFunct | .cWildcard => .call entry.function defaultContentType
        | .wildcard =>
          httpdSendFile files (strncpyInto HTTP_MAX_URL (entry.path ++ '/' :: entryName))

end WifiCat
