import WifiCat.Library.PathSegments
import WifiCat.Model.HttpdThread

/-!
# Which content a request gets

The web server's contents are a tree that is searched for the directory of a path, and a directory
is searched for the entry, the one registered last first.  `processRequest_eq_dispatch` says what
comes out of it, in terms of the path's segments.
-/

set_option autoImplicit false

namespace WifiCat.Analysis

open Scan NameTree PathSegments

variable {files : HttpFiles} {dirs : WebDirs}

/-! ## Paths -/

/-- The directories that a path names, and what it names in them. -/
def pathPlace (path : Text) : List Text := (fields '/' path).dropLast.filter (· ≠ [])

/-- The directories that a configured directory is. -/
def dirPlace (dir : Text) : List Text := strtokSlash (strncpyInto HTTP_MAX_URL dir)

/-- A text with a slash ends in an entry behind the last one. -/
theorem exists_lastSlash {path : Text} (h : '/' ∈ path) :
    ∃ dir, path = dir ++ '/' :: lastSegment path ∧ '/' ∉ lastSegment path ∧
      pathPlace path = strtokSlash dir := by
  obtain ⟨dir, entry, hpath, hentry⟩ : ∃ dir entry, path = dir ++ '/' :: entry ∧ '/' ∉ entry := by
    induction path with
    | nil => cases h
    | cons c path ih =>
      by_cases hmem : '/' ∈ path
      · obtain ⟨dir, entry, hpath, hentry⟩ := ih hmem
        exact ⟨c :: dir, entry, by rw [hpath, List.cons_append], hentry⟩
      · exact ⟨[], path, by rw [(List.mem_cons.mp h).resolve_right hmem]; rfl, hmem⟩
  have hfields : fields '/' path = fields '/' dir ++ [entry] := by
    rw [hpath, fields_append, fields_of_not_mem hentry]
  have hlast : lastSegment path = entry := by
    simp only [lastSegment, hfields, List.getLast_append_singleton]
  have hplace : pathPlace path = strtokSlash dir := by
    simp only [pathPlace, hfields, List.dropLast_concat, strtokSlash]
  exact ⟨dir, by rw [hlast, ← hpath], by rw [hlast]; exact hentry, hplace⟩

theorem strrchr_append {dir entry : Text} (h : '/' ∉ entry) :
    strrchr (dir ++ '/' :: entry) '/' = some ('/' :: entry) := by
  have hall : ∀ c ∈ entry.reverse, decide (c ≠ '/') = true := by
    intro c hc
    exact decide_eq_true fun heq => h (heq ▸ List.mem_reverse.mp hc)
  rw [strrchr, if_pos (by simp), List.reverse_append, List.reverse_cons, List.append_assoc,
    List.takeWhile_append_of_pos hall]
  simp

theorem length_strncpyInto (n : ℕ) (s : Text) : (strncpyInto n s).length ≤ n - 1 :=
  List.length_take_le _ _

theorem strncpyInto_of_le {n : ℕ} {s : Text} (h : s.length ≤ n - 1) : strncpyInto n s = s :=
  List.take_of_length_le h

/-- INTERNAL: the directory and the entry that are looked up.
SOURCE: api.c:959-972, protocol.c:478-482 -/
theorem splitPath_eq {path : Text} (h : '/' ∈ strncpyInto HTTP_MAX_URL path) :
    ∃ dirName, httpdSplitPath path =
        some (dirName, lastSegment (strncpyInto HTTP_MAX_URL path)) ∧
      dirPlace dirName = pathPlace (strncpyInto HTTP_MAX_URL path) := by
  have hlength := length_strncpyInto HTTP_MAX_URL path
  set cut := strncpyInto HTTP_MAX_URL path with hcut
  obtain ⟨dir, hpath, hentry, hplace⟩ := exists_lastSlash h
  have hlengths : cut.length = dir.length + (lastSegment cut).length + 1 := by
    conv_lhs => rw [hpath]
    rw [List.length_append, List.length_cons]
    omega
  have hrest : strncpyInto HTTP_MAX_URL (lastSegment cut) = lastSegment cut :=
    strncpyInto_of_le (by omega)
  have htake : cut.take dir.length = dir := by
    conv_lhs => rw [hpath]
    exact List.take_left
  have hsub : cut.length - ('/' :: lastSegment cut).length = dir.length := by
    rw [List.length_cons]
    omega
  have hrchr : strrchr cut '/' = some ('/' :: lastSegment cut) := by
    conv_lhs => rw [hpath]
    exact strrchr_append hentry
  refine ⟨if dir.length ≠ 0 then dir else ['/'], ?_, ?_⟩
  · unfold httpdSplitPath
    dsimp only
    rw [← hcut, hrchr, Option.map_some, hsub, htake, List.drop_one, List.tail_cons, hrest]
    by_cases hdir : dir.length = 0
    · obtain rfl := List.length_eq_zero_iff.mp hdir
      have hslash : cut.take 1 = ['/'] := by
        conv_lhs => rw [hpath]
        rfl
      rw [if_neg (by simp), if_neg (by simp), hslash]
    · rw [if_pos hdir, if_pos hdir]
  · rw [hplace, dirPlace]
    split
    · rw [strncpyInto_of_le (by omega)]
    · next hdir =>
      obtain rfl : dir = [] := List.length_eq_zero_iff.mp (not_not.mp hdir)
      decide

/-! ## Entries -/

/-- INTERNAL: a request gets the first entry that fits in the directory it names, and a directory
that is not there is one without entries.
SOURCE: api.c:973-1017 -/
theorem processRequest_eq (files : HttpFiles) (content : HttpDir) {path : Text}
    (h : '/' ∈ strncpyInto HTTP_MAX_URL path) :
    httpdProcessRequest files content path =
      match ((content.entriesAt (pathPlace (strncpyInto HTTP_MAX_URL path))).getD []).find?
        fun entry => entry.type = .wildcard ∨ entry.type = .cWildcard ∨
          lastSegment (strncpyInto HTTP_MAX_URL path) = [] ∧ entry.indexFlag ∨
            entry.name = some (lastSegment (strncpyInto HTTP_MAX_URL path)) with
      | none => .call .notFound defaultContentType
      | some entry =>
        match entry.type with
        | .cFunct | .cWildcard => .call entry.function defaultContentType
        | .wildcard => httpdSendFile files (strncpyInto HTTP_MAX_URL
            (entry.path ++ '/' :: lastSegment (strncpyInto HTTP_MAX_URL path))) := by
  obtain ⟨dirName, hsplit, hplace⟩ := splitPath_eq h
  unfold httpdProcessRequest
  rw [hsplit]
  dsimp only
  rw [httpdFindContentDir, ← hplace, dirPlace, Tree.entriesAt]
  cases content.find (strtokSlash (strncpyInto HTTP_MAX_URL dirName)) <;> rfl

/-- The place of the files of a configured directory.
SOURCE: gateway.c:258-267, api.c:729-744 -/
def filesPath (dirs : WebDirs) (dir : Text) : Text :=
  if dir.head? = some '/' then dir
  else strncpyInto HTTP_MAX_URL (strncpyInto HTTP_MAX_URL dirs.webroot ++ '/' :: dir)

/-- What a request gets that names an entry in a directory: the functions are asked first, and the
last one that was registered before the others. -/
def dispatch (files : HttpFiles) (dirs : WebDirs) (place : List Text) (entry : Text) :
    HttpdOutcome :=
  if place = dirPlace dirs.denydir then .call .deny defaultContentType
  else if place = dirPlace dirs.authdir then .call .auth defaultContentType
  else if place = [] ∧ entry = [] then .call .index defaultContentType
  else if place = dirPlace dirs.pagesdir then
    httpdSendFile files (strncpyInto HTTP_MAX_URL (filesPath dirs dirs.pagesdir ++ '/' :: entry))
  else if place = dirPlace dirs.imagesdir then
    httpdSendFile files (strncpyInto HTTP_MAX_URL (filesPath dirs dirs.imagesdir ++ '/' :: entry))
  else .call .notFound defaultContentType

/-- INTERNAL: the entries of a place, the last registered first.
SOURCE: gateway.c:258-276 -/
theorem entries_webserverContent (dirs : WebDirs) (place : List Text) :
    ((webserverContent dirs).entriesAt place).getD [] =
      (if place = dirPlace dirs.denydir then
        [{ name := none, type := .cWildcard, function := .deny }] else []) ++
      ((if place = dirPlace dirs.authdir then
        [{ name := none, type := .cWildcard, function := .auth }] else []) ++
      ((if place = [] then [{ name := some [], type := .cFunct, function := .index }] else []) ++
      ((if place = dirPlace dirs.pagesdir then
        [{ name := none, type := .wildcard, path := filesPath dirs dirs.pagesdir }] else []) ++
      (if place = dirPlace dirs.imagesdir then
        [{ name := none, type := .wildcard, path := filesPath dirs dirs.imagesdir }] else [])))) := by
  have hroot : strtokSlash (strncpyInto HTTP_MAX_URL "/".toList) = [] := by decide
  have hempty : (httpdCreateContent.entriesAt place).getD [] = [] := getD_entriesAt_empty [] place
  unfold webserverContent httpdAddCWildcardContent httpdAddCContent httpdAddWildcardContent
    httpdAddContent
  dsimp only
  simp only [getD_entriesAt_insert, hroot, hempty, List.append_nil]
  rfl

/-- **The tree of contents is a list of places**: a request is denied, authenticated, captured as
one for the index, or served from the directory of pages or of images, whichever of these it names
first; everything else is captured as not found.
SOURCE: api.c:949-1018, gateway.c:258-277, protocol.c:468-533 -/
theorem processRequest_eq_dispatch (files : HttpFiles) (dirs : WebDirs) (path : Text) :
    httpdProcessRequest files (webserverContent dirs) path =
      let cut := strncpyInto HTTP_MAX_URL path
      if '/' ∈ cut then dispatch files dirs (pathPlace cut) (lastSegment cut)
      else .invalidPath := by
  dsimp only
  split
  · next h =>
    rw [processRequest_eq files _ h, entries_webserverContent]
    unfold dispatch
    generalize pathPlace (strncpyInto HTTP_MAX_URL path) = place
    generalize lastSegment (strncpyInto HTTP_MAX_URL path) = entry
    by_cases hdeny : place = dirPlace dirs.denydir
    · rw [if_pos hdeny, if_pos hdeny]
      rfl
    rw [if_neg hdeny, if_neg hdeny, List.nil_append]
    by_cases hauth : place = dirPlace dirs.authdir
    · rw [if_pos hauth, if_pos hauth]
      rfl
    rw [if_neg hauth, if_neg hauth, List.nil_append]
    by_cases hindex : place = [] ∧ entry = []
    · rw [if_pos hindex, if_pos hindex.1, List.cons_append,
        List.find?_cons_of_pos (by simp [hindex.2])]
    rw [if_neg hindex, List.find?_append]
    -- the function of the index fits only an entry without a name
    have hskip : List.find? (fun content : HttpContent => decide (content.type = .wildcard ∨
        content.type = .cWildcard ∨ entry = [] ∧ content.indexFlag = true ∨
          content.name = some entry))
        (if place = [] then [{ name := some [], type := .cFunct, function := .index }] else []) =
          none := by
      split
      · next hroot =>
        have hne : entry ≠ [] := fun h => hindex ⟨hroot, h⟩
        simp [hne.symm]
      · rfl
    rw [hskip, Option.none_or]
    by_cases hpages : place = dirPlace dirs.pagesdir
    · rw [if_pos hpages, if_pos hpages]
      rfl
    rw [if_neg hpages, if_neg hpages, List.nil_append]
    by_cases himages : place = dirPlace dirs.imagesdir
    · rw [if_pos himages, if_pos himages]
      rfl
    · rw [if_neg himages, if_neg himages]
      rfl
  · next h =>
    have hsplit : httpdSplitPath path = none := by
      dsimp only [httpdSplitPath, strrchr]
      rw [if_neg h, Option.map_none]
    unfold httpdProcessRequest
    rw [hsplit]

/-- INTERNAL: a file that is sent was found, under its own path. -/
theorem sendFile_eq_file {path p contentType content : Text}
    (h : httpdSendFile files path = .file p contentType content) :
    p = path ∧ files.stat p = true ∧ content = files.content p := by
  unfold httpdSendFile at h
  split at h
  · next hstat =>
    rw [HttpdOutcome.file.injEq] at h
    obtain ⟨rfl, -, rfl⟩ := h
    exact ⟨rfl, hstat, rfl⟩
  · cases h

/-- **A file that is sent is one of the pages or of the images**: it is what a path names in one of
these two directories, by a name without a slash.
SOURCE: api.c:949-1018, protocol.c:604-652, gateway.c:258-267 -/
theorem file_confined {path p contentType content : Text}
    (h : httpdProcessRequest files (webserverContent dirs) path = .file p contentType content) :
    ∃ dir entry, (dir = dirs.pagesdir ∨ dir = dirs.imagesdir) ∧ '/' ∉ entry ∧
      pathPlace (strncpyInto HTTP_MAX_URL path) = dirPlace dir ∧
      p = strncpyInto HTTP_MAX_URL (filesPath dirs dir ++ '/' :: entry) ∧
      files.stat p = true ∧ content = files.content p := by
  rw [processRequest_eq_dispatch] at h
  dsimp only at h
  split at h
  · have hentry := lastSegment_clean (strncpyInto HTTP_MAX_URL path)
    unfold dispatch at h
    split_ifs at h with hdeny hauth hindex hpages himages
    · obtain ⟨hp, hstat, hcontent⟩ := sendFile_eq_file h
      exact ⟨_, _, Or.inl rfl, hentry, hpages, hp, hstat, hcontent⟩
    · obtain ⟨hp, hstat, hcontent⟩ := sendFile_eq_file h
      exact ⟨_, _, Or.inr rfl, hentry, himages, hp, hstat, hcontent⟩
  · cases h

/-- Every file is there, with its path as its content. -/
def mirrorFiles : HttpFiles := { stat := fun _ => true, content := id }

/-- A server with the directories of the configuration's defaults. -/
def plainServer : HttpdServer := { remote := {}, dirs := {}, files := mirrorFiles }

/-- An image that is asked for. -/
theorem file_confined_sample :
    ∃ dir entry, (dir = ({} : WebDirs).pagesdir ∨ dir = ({} : WebDirs).imagesdir) ∧ '/' ∉ entry ∧
      pathPlace (strncpyInto HTTP_MAX_URL "/images/logo.png".toList) = dirPlace dir ∧
      "/etc/wificat/htdocs/images/logo.png".toList =
        strncpyInto HTTP_MAX_URL (filesPath {} dir ++ '/' :: entry) ∧
      mirrorFiles.stat "/etc/wificat/htdocs/images/logo.png".toList = true ∧
      "/etc/wificat/htdocs/images/logo.png".toList =
        mirrorFiles.content "/etc/wificat/htdocs/images/logo.png".toList :=
  file_confined (show httpdProcessRequest mirrorFiles (webserverContent {})
    "/images/logo.png".toList = .file _ "image/png".toList _ by decide)

end WifiCat.Analysis
