import WifiCat.Analysis.RequestBounds

/-!
# A request for a target

What is read of a request whose first line asks for a target, whatever headers follow: the target
is cut to 1023 characters, sanitised, and divided at its `?`.
-/

set_option autoImplicit false

namespace WifiCat.Analysis

open Scan PieceReader

/-- The characters of a target. -/
def TargetText (t : Text) : Prop := ∀ c ∈ t, 33 ≤ c.toNat ∧ c.toNat < 127

instance (t : Text) : Decidable (TargetText t) := inferInstanceAs (Decidable (∀ c ∈ t, _))

/-- A first line, as a client writes it. -/
def getLine (target version : Text) : Text := "GET ".toList ++ target ++ ' ' :: version

/-- A request: the first line, and whatever follows. -/
def getRequest (target version rest : Text) : Text :=
  getLine target version ++ "\r\n".toList ++ rest

/-! ## The first line -/

/-- A line that ends is read as it is, if there is room for it. -/
theorem lineAhead_append {line : Text} (hline : ∀ c ∈ line, 32 ≤ c.toNat ∧ c.toNat < 127)
    {room : ℕ} (hroom : line.length < room) (rest : Text) :
    lineAhead room (line ++ '\r' :: '\n' :: rest) = some (line, rest) := by
  induction line generalizing room with
  | nil => rfl
  | cons c line ih =>
    rw [List.forall_mem_cons] at hline
    rw [List.length_cons] at hroom
    have hend : ¬(c = '\n' ∨ 128 ≤ c.toNat) := by
      rintro (rfl | hc)
      · exact absurd hline.1.1 (by decide)
      · omega
    have hcr : c ≠ '\r' := by
      rintro rfl
      exact absurd hline.1.1 (by decide)
    rw [List.cons_append, lineAhead, if_neg hend, if_neg hcr, if_pos (by omega),
      ih hline.2 (by omega)]
    rfl

/-- INTERNAL: the request that the first line gives.
SOURCE: api.c:407-439 -/
theorem requestLine_get {target : Text} (hne : target ≠ []) (htarget : TargetText target)
    (version stale : Text) :
    (httpdRequestLine { buf := ⟨getLine target version ++ '\x00' :: stale, false⟩ }).2.request =
      { method := some .get, path := httpdSanitiseUrl (strncpyInto HTTP_MAX_URL target) } := by
  set rest := target ++ ' ' :: version ++ '\x00' :: stale with hrest
  have hbytes : getLine target version ++ '\x00' :: stale = 'G' :: 'E' :: 'T' :: ' ' :: rest := by
    rw [getLine, hrest, List.append_assoc, List.append_assoc, List.append_assoc]
    rfl
  have hwrite : Buffer.write ⟨'G' :: 'E' :: 'T' :: ' ' :: rest, false⟩ 3 ['\x00'] =
      ⟨'G' :: 'E' :: 'T' :: '\x00' :: rest, false⟩ :=
    Buffer.write_eq (by simp only [List.length_cons, List.length_nil]; omega)
  obtain ⟨c, t, rfl⟩ := List.exists_cons_of_ne_nil hne
  have hblank : c ≠ ' ' := by
    rintro rfl
    exact absurd (htarget ' ' List.mem_cons_self).1 (by decide)
  have hdrop : rest.dropWhile (· = ' ') = rest := by
    rw [hrest, List.cons_append, List.cons_append, List.dropWhile_cons, if_neg (by simp [hblank])]
  have hword : rest.takeWhile (fun c => c ≠ ' ' ∧ c ≠ '\x00') = c :: t := by
    have hall : ∀ d ∈ c :: t, decide (d ≠ ' ' ∧ d ≠ '\x00') = true := by
      intro d hd
      refine decide_eq_true ⟨?_, ?_⟩ <;> rintro rfl <;> exact absurd (htarget _ hd).1 (by decide)
    rw [hrest, List.append_assoc, List.takeWhile_append_of_pos hall]
    simp
  rw [hbytes]
  unfold httpdRequestLine
  dsimp only
  have hletters : ('G' :: 'E' :: 'T' :: ' ' :: rest).takeWhile Char.isAlpha = "GET".toList := rfl
  have hname : cString ('G' :: 'E' :: 'T' :: '\x00' :: rest) = "GET".toList := rfl
  have hmethod : httpdMethod "GET".toList = some .get := by decide
  rw [hletters, show "GET".toList.length = 3 from rfl, hwrite]
  dsimp only
  rw [hname, hmethod]
  dsimp only
  rw [show ('G' :: 'E' :: 'T' :: '\x00' :: rest).drop (3 + 1) = rest from rfl, hdrop, hword]

/-! ## The headers -/

/-- INTERNAL: a header changes only the host and the credentials.
SOURCE: api.c:483-541 -/
theorem httpdHeader_kept (st : HttpdReading) :
    (httpdHeader st).request.method = st.request.method ∧
      (httpdHeader st).request.path = st.request.path ∧
      (httpdHeader st).request.query = st.request.query := by
  have hauth : (httpdAuthorization st).request.method = st.request.method ∧
      (httpdAuthorization st).request.path = st.request.path ∧
      (httpdAuthorization st).request.query = st.request.query := by
    unfold httpdAuthorization
    split
    · exact ⟨rfl, rfl, rfl⟩
    · exact ⟨rfl, rfl, rfl⟩
  dsimp only [httpdHeader]
  split <;> split <;> first | exact hauth | exact ⟨rfl, rfl, rfl⟩

theorem readHeaders_kept (st : HttpdReading) (r : Reader Char) :
    (httpdReadHeaders st r).request.method = st.request.method ∧
      (httpdReadHeaders st r).request.path = st.request.path ∧
      (httpdReadHeaders st r).request.query = st.request.query := by
  induction hlen : r.stream.length using Nat.strongRecOn generalizing st r with
  | ind n ih =>
    cases hline : httpdReadLine r st.buf HTTP_MAX_LEN with
    | none =>
      rw [readHeaders_of_none hline]
      exact ⟨rfl, rfl, rfl⟩
    | some p =>
      rw [readHeaders_of_some hline]
      split
      · exact ⟨rfl, rfl, rfl⟩
      · obtain ⟨hmethod, hpath, hquery⟩ := ih _ (hlen ▸ feed_length hline)
          (httpdHeader { st with buf := p.1 }) p.2 rfl
        obtain ⟨hmethod', hpath', hquery'⟩ := httpdHeader_kept { st with buf := p.1 }
        exact ⟨hmethod.trans hmethod', hpath.trans hpath', hquery.trans hquery'⟩

/-! ## The request -/

/-- What a target is read as. -/
def readTarget (target : Text) : HttpReq × List HttpVar :=
  httpdUrlData { path := httpdSanitiseUrl (strncpyInto HTTP_MAX_URL target) }

/-- What stands behind the `?` does not depend on the rest of the request. -/
theorem urlData_congr {req : HttpReq} (req' : HttpReq) (hpath : req.path = req'.path)
    (hquery : req.query = req'.query) :
    (httpdUrlData req).1.method = req.method ∧
      (httpdUrlData req).1.path = (httpdUrlData req').1.path ∧
      (httpdUrlData req).1.query = (httpdUrlData req').1.query ∧
      (httpdUrlData req).2 = (httpdUrlData req').2 := by
  unfold httpdUrlData
  rw [hpath]
  split
  · exact ⟨rfl, rfl, rfl, rfl⟩
  · exact ⟨rfl, hpath, hquery, rfl⟩

/-- INTERNAL: **a request for a target is read**, with any headers and in any pieces, as one for
what the target is sanitised to.
SOURCE: api.c:381-612 -/
theorem readRequest_get {stack : Text} (hstack : stack.length = HTTP_MAX_LEN) {target version : Text}
    (hne : target ≠ []) (htarget : TargetText target) (hversion : TargetText version)
    (hlength : (getLine target version).length < HTTP_MAX_LEN) {rest : Text} {r : Reader Char}
    (hr : r.stream = getRequest target version rest) :
    (httpdReadRequest stack r).rc = 0 ∧
      (httpdReadRequest stack r).request.method = some .get ∧
      (httpdReadRequest stack r).request.path = (readTarget target).1.path ∧
      (httpdReadRequest stack r).request.query = (readTarget target).1.query ∧
      (httpdReadRequest stack r).vars = (readTarget target).2 := by
  have hclean : ∀ c ∈ getLine target version, 32 ≤ c.toNat ∧ c.toNat < 127 := by
    intro c hc
    rw [getLine, List.mem_append, List.mem_append, List.mem_cons] at hc
    rcases hc with (hc | hc) | rfl | hc
    · revert hc c
      decide
    · have hc' := htarget c hc
      omega
    · decide
    · have hc' := hversion c hc
      omega
  have hahead : lineAhead HTTP_MAX_LEN r.stream = some (getLine target version, rest) := by
    rw [hr, getRequest, List.append_assoc]
    exact lineAhead_append hclean hlength rest
  unfold httpdReadRequest
  dsimp only
  rcases readLine_cases hstack false r with ⟨-, hnone⟩ | ⟨line, r', hsome, hline⟩
  · rw [hahead] at hnone
    cases hnone
  · rw [hahead, Option.some.injEq, Prod.mk.injEq] at hline
    obtain ⟨rfl, -⟩ := hline
    have hbuf : lineBuffer stack false (getLine target version) =
        ⟨getLine target version ++ '\x00' :: stack.drop ((getLine target version).length + 1),
          false⟩ := if_pos (hstack ▸ hlength)
    rw [hsome]
    dsimp only
    rw [hbuf]
    have hrequest := requestLine_get hne htarget version
      (stack.drop ((getLine target version).length + 1))
    rw [hrequest, if_neg (by simp)]
    set st := (httpdRequestLine { buf := ⟨getLine target version ++
      '\x00' :: stack.drop ((getLine target version).length + 1), false⟩ }).2 with hst
    obtain ⟨hmethod, hpath, hquery⟩ := readHeaders_kept st r'
    rw [hrequest] at hmethod hpath hquery
    obtain ⟨hmethod', hpath', hquery', hvars'⟩ := urlData_congr
      { path := httpdSanitiseUrl (strncpyInto HTTP_MAX_URL target) } hpath hquery
    exact ⟨rfl, hmethod'.trans hmethod, hpath', hquery', hvars'⟩

end WifiCat.Analysis
