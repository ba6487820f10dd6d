import WifiCat.Model.ConfFromServer

/-!
# What a document does to the configuration

The purpose of a document is a list of pairs, each a key with the texts that stand for its
value, and what it does is their left fold (`applyPairs`).  The walk applies the pairs it
reads as it goes (`confWalk_reads`): when it meets a key it rejects, the pairs before that
key have been applied, and nothing takes them back (`rejected_after_pairs`).
-/

set_option autoImplicit false

namespace WifiCat.Analysis

open Scan WifiCat

/-! ## Pairs -/

/-- A key with the text of its value, or with those of its elements. -/
inductive ConfPair
  | text (key : TextKey) (value : Text)
  | number (key : NumberKey) (value : Text)
  | list (key : ListKey) (elements : List Text)
deriving DecidableEq, Repr

/-- What a pair is for: a text is assigned, a number is assigned as `atoi` reads it, and the
elements of a list are added in order. -/
def ConfPair.apply (dns : Dns) (a : Applied) : ConfPair → Applied
  | .text key value => { a with config := key.assign value a.config }
  | .number key value => { a with config := key.assign (atoi value) a.config }
  | .list key elements => elements.foldl (fun a element => key.add dns element a) a

/-- What a document is for. -/
def applyPairs (dns : Dns) (pairs : List ConfPair) (a : Applied) : Applied :=
  pairs.foldl (ConfPair.apply dns) a

@[simp] theorem applyPairs_nil (dns : Dns) (a : Applied) : applyPairs dns [] a = a := rfl

@[simp] theorem applyPairs_cons (dns : Dns) (pair : ConfPair) (pairs : List ConfPair)
    (a : Applied) :
    applyPairs dns (pair :: pairs) a = applyPairs dns pairs (pair.apply dns a) := rfl

/-! ## Reading

What the walk hands on depends on the tokens and on what is left in the buffer, and not on the
configuration. -/

/-- The elements that are handed on when the tokens are copied one after the other, and the
buffer after them. -/
def readElements (js : Text) (n : ℕ) : List JsmnToken → Text → List Text × Text
  | [], tmp => ([], tmp)
  | g :: gs, tmp =>
    let tmp := clearAndCopy n (g.text js) tmp
    let r := readElements js n gs tmp
    (cString tmp :: r.1, r.2)

/-- The tokens the walk takes for the elements of a list: as many as the array at `i + 1` says,
from the one behind it on. -/
def elementTokens (t : ℕ → JsmnToken) (i : ℕ) : List JsmnToken :=
  (List.range (t (i + 1)).size).map fun j => t (i + j + 2)

/-- From the token `i` on, and with `tmp` in the buffer, these pairs are read until the walk
stands at the token `k`. -/
inductive ReadUpTo (js : Text) (t : ℕ → JsmnToken) (res : ℕ) :
    ℕ → Text → List ConfPair → ℕ → Prop
  | here (i : ℕ) (tmp : Text) : ReadUpTo js t res i tmp [] i
  | text {i k : ℕ} {tmp : Text} {pairs : List ConfPair} (key : TextKey) (hi : i < res)
      (hkey : confKey js (t i) = some (.text key))
      (rest : ReadUpTo js t res (i + 2) tmp pairs k) :
      ReadUpTo js t res i tmp (.text key ((t (i + 1)).text js) :: pairs) k
  | number {i k : ℕ} {tmp : Text} {pairs : List ConfPair} (key : NumberKey) (hi : i < res)
      (hkey : confKey js (t i) = some (.number key))
      (rest : ReadUpTo js t res (i + 2) (clearAndCopy 32 ((t (i + 1)).text js) tmp) pairs k) :
      ReadUpTo js t res i tmp
        (.number key (cString (clearAndCopy 32 ((t (i + 1)).text js) tmp)) :: pairs) k
  | list {i k : ℕ} {tmp : Text} {pairs : List ConfPair} (key : ListKey) (hi : i < res)
      (hkey : confKey js (t i) = some (.list key)) (harray : (t (i + 1)).type = .array)
      (rest : ReadUpTo js t res (i + (t (i + 1)).size + 2)
        (readElements js key.cleared (elementTokens t i) tmp).2 pairs k) :
      ReadUpTo js t res i tmp
        (.list key (readElements js key.cleared (elementTokens t i) tmp).1 :: pairs) k

/-- The token is no key of the configuration, or the key of a list whose value is no array. -/
def Rejected (js : Text) (t : ℕ → JsmnToken) (k : ℕ) : Prop :=
  confKey js (t k) = none ∨
    ∃ key, confKey js (t k) = some (.list key) ∧ (t (k + 1)).type ≠ .array

/-! ## The walk applies what it reads -/

section Walk

variable (js : Text) (t : ℕ → JsmnToken) (dns : Dns)

/-- The loop over the elements of a list adds what it reads. -/
theorem confElements_reads (key : ListKey) (i : ℕ) (js' : List ℕ) (w : ConfWalk) :
    let r := readElements js key.cleared (js'.map fun j => t (i + j + 2)) w.tmp
    let w' := js'.foldl (fun w j => confElement js t dns key (i + j + 2) w) w
    w'.tmp = r.2 ∧
      w'.applied = r.1.foldl (fun a element => key.add dns element a) w.applied := by
  induction js' generalizing w with
  | nil => exact ⟨rfl, rfl⟩
  | cons j js' ih => exact ih (confElement js t dns key (i + j + 2) w)

theorem confText_reads (key : TextKey) (i : ℕ) (w : ConfWalk) :
    (confText js t key i w).tmp = w.tmp ∧
      (confText js t key i w).applied =
        (ConfPair.text key ((t (i + 1)).text js)).apply dns w.applied :=
  ⟨rfl, rfl⟩

theorem confNumber_reads (key : NumberKey) (i : ℕ) (w : ConfWalk) :
    let tmp := clearAndCopy 32 ((t (i + 1)).text js) w.tmp
    (confNumber js t key i w).tmp = tmp ∧
      (confNumber js t key i w).applied =
        (ConfPair.number key (cString tmp)).apply dns w.applied :=
  ⟨rfl, rfl⟩

/-- A list is read when there is an array, and otherwise nothing happens to the
configuration. -/
theorem confList_reads (key : ListKey) (i : ℕ) (w : ConfWalk) :
    let r := readElements js key.cleared (elementTokens t i) w.tmp
    let out := confList js t dns key i w
    if (t (i + 1)).type = .array then
      out.1 = true ∧ out.2.tmp = r.2 ∧
        out.2.applied = (ConfPair.list key r.1).apply dns w.applied
    else out.1 = false ∧ out.2.applied = w.applied := by
  by_cases harray : (t (i + 1)).type = .array
  · have hreads := confElements_reads js t dns key i (List.range (t (i + 1)).size)
      { w with log := .token (i + 1) :: w.log }
    simp only [confList, harray, ne_eq, not_true_eq_false, if_false, if_true, true_and]
    exact hreads
  · simp [confList, harray]

/-- INTERNAL: The walk applies the pairs it reads, one after the other, up to the end of the
tokens or to the first key that is rejected.
SOURCE: conf.c:838-1003 -/
theorem confWalk_reads (res fuel i : ℕ) (w : ConfWalk) (hfuel : res ≤ i + fuel) :
    ∃ pairs k, ReadUpTo js t res i w.tmp pairs k ∧
      (confWalk js t dns res fuel i w).2.applied = applyPairs dns pairs w.applied ∧
      ((confWalk js t dns res fuel i w).1 = 1 ∧ res ≤ k ∨
        (confWalk js t dns res fuel i w).1 = -4 ∧ k < res ∧ Rejected js t k) := by
  induction fuel generalizing i w with
  | zero => exact ⟨[], i, .here i w.tmp, rfl, .inl ⟨rfl, hfuel⟩⟩
  | succ fuel ih =>
    rw [confWalk]
    by_cases hi : i < res
    · rw [if_pos hi]
      cases hkey : confKey js (t i) with
      | none => exact ⟨[], i, .here i w.tmp, rfl, .inr ⟨rfl, hi, .inl hkey⟩⟩
      | some key =>
        cases key with
        | text key =>
          obtain ⟨pairs, k, hread, happlied, hend⟩ :=
            ih (i + 2) (confText js t key i { w with log := .token i :: w.log }) (by omega)
          exact ⟨_, k, .text key hi hkey hread, happlied, hend⟩
        | number key =>
          obtain ⟨pairs, k, hread, happlied, hend⟩ :=
            ih (i + 2) (confNumber js t key i { w with log := .token i :: w.log }) (by omega)
          exact ⟨_, k, .number key hi hkey hread, happlied, hend⟩
        | list key =>
          have hlist := confList_reads js t dns key i { w with log := .token i :: w.log }
          dsimp only at hlist ⊢
          by_cases harray : (t (i + 1)).type = .array
          · rw [if_pos harray] at hlist
            obtain ⟨hok, htmp, happ⟩ := hlist
            obtain ⟨pairs, k, hread, happlied, hend⟩ :=
              ih (i + (t (i + 1)).size + 2)
                (confList js t dns key i { w with log := .token i :: w.log }).2 (by omega)
            rw [htmp] at hread
            rw [happ] at happlied
            rw [if_pos hok]
            exact ⟨_, k, .list key hi hkey harray hread, happlied, hend⟩
          · rw [if_neg harray] at hlist
            rw [if_neg (by simp [hlist.1])]
            exact ⟨[], i, .here i w.tmp, hlist.2, .inr ⟨rfl, hi, .inr ⟨key, hkey, harray⟩⟩⟩
    · rw [if_neg hi]
      exact ⟨[], i, .here i w.tmp, rfl, .inl ⟨rfl, by omega⟩⟩

end Walk

/-! ## The token array -/

theorem tokenArray_of_drop {garbage : ℕ → JsmnToken} {all rest : List JsmnToken} {tok : JsmnToken}
    {i : ℕ} (h : all.drop i = tok :: rest) : tokenArray garbage all i = tok := by
  have hget : (all.drop i)[0]? = some tok := by rw [h]; rfl
  rw [List.getElem?_drop, Nat.add_zero] at hget
  rw [tokenArray, List.getD_eq_getElem?_getD, hget]
  rfl

theorem lt_length_of_drop {all rest : List JsmnToken} {tok : JsmnToken} {i : ℕ}
    (h : all.drop i = tok :: rest) : i < all.length := by
  have hlen := congrArg List.length h
  rw [List.length_drop, List.length_cons] at hlen
  omega

theorem exists_cons_of_drop {all toks : List JsmnToken} {i : ℕ} (hi : i < all.length)
    (h : all.drop i = toks) : ∃ tok rest, toks = tok :: rest := by
  refine List.exists_cons_of_ne_nil fun hnil => ?_
  rw [hnil, List.drop_eq_nil_iff] at h
  omega

theorem drop_succ_of_drop {all rest : List JsmnToken} {tok : JsmnToken} {i : ℕ}
    (h : all.drop i = tok :: rest) : all.drop (i + 1) = rest := by
  rw [← List.drop_drop, h]
  rfl

/-- The elements the walk takes are those that stand behind the array. -/
theorem elementTokens_eq {garbage : ℕ → JsmnToken} {all els rest : List JsmnToken} {i : ℕ}
    (h : all.drop (i + 2) = els ++ rest)
    (hsize : (tokenArray garbage all (i + 1)).size = els.length) :
    elementTokens (tokenArray garbage all) i = els := by
  rw [elementTokens, hsize]
  refine List.ext_getElem (by simp) fun j _ hj => ?_
  have hget : all[i + 2 + j]? = some els[j] := by
    rw [← List.getElem?_drop, h, List.getElem?_append_left hj, List.getElem?_eq_getElem hj]
  rw [List.getElem_map, List.getElem_range, Nat.add_right_comm, tokenArray,
    List.getD_eq_getElem?_getD, hget]
  rfl

/-! ## A call that fails -/

/-- The document the server has answered with, if the call gets one.
SOURCE: conf.c:798-816 -/
def serverDocument (m : ConfMoment) (c : ServerConfig) : Option Text :=
  (configExchange m c).bind fun exchange => exchange.bind fun exchange =>
    exchange.received.bind fun buf => strstrAfter CRLFCRLF (cString buf)

/-- INTERNAL: the document stands in a text up to a NUL.
SOURCE: conf.c:808-817 -/
theorem not_mem_serverDocument {m : ConfMoment} {c : ServerConfig} {json : Text}
    (h : serverDocument m c = some json) : '\x00' ∉ json := by
  obtain ⟨answer, -, hanswer⟩ := Option.bind_eq_some_iff.mp h
  obtain ⟨exchange, -, hbuf⟩ := Option.bind_eq_some_iff.mp hanswer
  obtain ⟨buf, -, hjson⟩ := Option.bind_eq_some_iff.mp hbuf
  exact fun hmem => not_mem_cString buf ((strstrAfter_suffix hjson).subset hmem)

/-- A call that gets a document applies it, unless something it does is undefined. -/
theorem configFromServer_of_document {m : ConfMoment} {c : ServerConfig} {json : Text}
    (hdoc : serverDocument m c = some json) :
    configFromServer m c = some
      (if (confFromJson m json c).2.2.log.all (ConfAccess.defined (confFromJson m json c).1) then
        .returned (confFromJson m json c).2.1 (confFromJson m json c).2.2.applied.config
      else .undefined) := by
  unfold serverDocument at hdoc
  obtain ⟨answer, hexchange, hanswer⟩ := Option.bind_eq_some_iff.mp hdoc
  obtain ⟨exchange, rfl, hbuf⟩ := Option.bind_eq_some_iff.mp hanswer
  obtain ⟨buf, hreceived, hjson⟩ := Option.bind_eq_some_iff.mp hbuf
  simp only [configFromServer, hexchange, Option.map_some, hreceived, hjson]

/-- A call that gets none changes nothing. -/
theorem configFromServer_of_no_document {m : ConfMoment} {c c' : ServerConfig} {res : ℤ}
    (hdoc : serverDocument m c = none) (h : configFromServer m c = some (.returned res c')) :
    c' = c := by
  unfold configFromServer at h
  obtain ⟨exchange, hexchange, h⟩ := Option.map_eq_some_iff.mp h
  simp only [serverDocument, hexchange, Option.bind_some] at hdoc
  cases exchange with
  | none =>
    cases h
    rfl
  | some exchange =>
    simp only [Option.bind_some] at hdoc
    cases hreceived : exchange.received with
    | none =>
      simp only [hreceived] at h
      cases h
      rfl
    | some buf =>
      simp only [hreceived, Option.bind_some] at h hdoc
      simp only [hdoc] at h
      cases h
      rfl

/-- The pairs that stand in the document before the key at which it is rejected; none when it
is not an object, or there is no document at all. -/
def PairsBeforeRejection (m : ConfMoment) (c : ServerConfig) (pairs : List ConfPair) : Prop :=
  match serverDocument m c with
  | none => pairs = []
  | some json =>
    match jsmnParse 256 json with
    | .error _ => pairs = []
    | .ok [] => pairs = []
    | .ok (tok :: toks) =>
      if tok.type ≠ .object then pairs = []
      else
        ∃ k < toks.length + 1,
          ReadUpTo json (tokenArray m.garbage (tok :: toks)) (toks.length + 1) 1 m.tmp pairs k ∧
          Rejected json (tokenArray m.garbage (tok :: toks)) k

/-- **A rejected document is applied in part**: when the function returns a negative value, the
configuration is changed by the pairs that stand before the key at which the document is rejected,
and by nothing else.
SOURCE: conf.c:794-1004 -/
theorem rejected_after_pairs (m : ConfMoment) (c c' : ServerConfig) (res : ℤ)
    (h : configFromServer m c = some (.returned res c')) (hneg : res < 0) :
    ∃ pairs, PairsBeforeRejection m c pairs ∧
      c' = (applyPairs m.dns pairs { config := c }).config := by
  unfold PairsBeforeRejection
  cases hdoc : serverDocument m c with
  | none => exact ⟨[], rfl, configFromServer_of_no_document hdoc h⟩
  | some json =>
    rw [configFromServer_of_document hdoc] at h
    split at h
    · obtain ⟨hres, hc⟩ := ConfOutcome.returned.inj (Option.some.inj h)
      subst hc
      unfold confFromJson at hres ⊢
      dsimp only
      rcases hparse : jsmnParse 256 json with err | _ | ⟨tok, toks⟩
      · exact ⟨[], rfl, rfl⟩
      · exact ⟨[], rfl, rfl⟩
      · simp only [hparse] at hres ⊢
        by_cases hobject : tok.type = .object
        · simp only [hobject, ne_eq, not_true_eq_false, if_false] at hres ⊢
          obtain ⟨pairs, k, hread, happlied, hend⟩ :=
            confWalk_reads json (tokenArray m.garbage (tok :: toks)) m.dns (toks.length + 1)
              (toks.length + 1) 1 { applied := { config := c }, tmp := m.tmp, log := [.token 0] }
              (by omega)
          rcases hend with ⟨hone, -⟩ | ⟨-, hk, hrejected⟩
          · omega
          · exact ⟨pairs, ⟨k, hk, hread, hrejected⟩, congrArg Applied.config happlied⟩
        · simp only [ne_eq, hobject, not_false_eq_true, if_true] at hres ⊢
          exact ⟨[], rfl, rfl⟩
    · cases h

/-! ## A document that is rejected behind its first pair -/

/-- A call that is answered at once, with this body. -/
def answeredMoment (body : Text) : ConfMoment where
  net :=
    { lookup := fun _ _ => some (10, 0, 0, 1)
      connect := fun _ => true
      chunks := ["HTTP/1.0 200 OK\r\n\r\n".toList ++ body]
      ending := .closed }
  fuel := 1
  dns := fun _ _ => none
  tmp := List.replicate 128 '\x00'
  garbage := fun _ => { type := .primitive, start := 0, stop := none, size := 0 }

/-- `{"maxClients":5,"x":1}` -/
def halfKnown : Text := "\x7b\"maxClients\":5,\"x\":1\x7d".toList

/-- Did the call return a number, with a configuration like this? -/
def returnedWith (res : ℤ) (ok : ServerConfig → Bool) : Option ConfOutcome → Bool
  | some (.returned res' c') => decide (res' = res) && ok c'
  | _ => false

theorem returnedWith_eq_true {res : ℤ} {ok : ServerConfig → Bool} {o : Option ConfOutcome}
    (h : returnedWith res ok o = true) : ∃ c', o = some (.returned res c') ∧ ok c' = true := by
  unfold returnedWith at h
  split at h
  · next res' c' =>
    obtain ⟨hres, hok⟩ := Bool.and_eq_true_iff.mp h
    exact ⟨c', by rw [of_decide_eq_true hres], hok⟩
  · cases h

theorem halfKnown_applied :
    ∃ c', configFromServer (answeredMoment halfKnown) {} = some (.returned (-4) c') ∧
      c'.maxclients = 5 := by
  have hrun : returnedWith (-4) (fun c' => decide (c'.maxclients = 5))
      (configFromServer (answeredMoment halfKnown) {}) = true := by decide +kernel
  obtain ⟨c', hcall, hmax⟩ := returnedWith_eq_true hrun
  exact ⟨c', hcall, of_decide_eq_true hmax⟩

/-- A configuration behind a negative return that is not the one before. -/
theorem not_atomic :
    ¬∀ (m : ConfMoment) (c c' : ServerConfig) (res : ℤ),
      configFromServer m c = some (.returned res c') → res < 0 → c' = c := by
  intro hatomic
  obtain ⟨c', hcall, hmax⟩ := halfKnown_applied
  have hsame := hatomic _ _ _ _ hcall (by decide)
  rw [hsame] at hmax
  exact absurd hmax (by decide)

theorem rejected_after_pairs_sample :
    ∃ c', configFromServer (answeredMoment halfKnown) {} = some (.returned (-4) c') ∧
      ∃ pairs, PairsBeforeRejection (answeredMoment halfKnown) {} pairs ∧
        c' = (applyPairs (answeredMoment halfKnown).dns pairs { config := {} }).config := by
  obtain ⟨c', hcall, -⟩ := halfKnown_applied
  exact ⟨c', hcall, rejected_after_pairs _ _ _ _ hcall (by decide)⟩

end WifiCat.Analysis
