import WifiCat.Analysis.SessionInvariant
import WifiCat.Model.Http

/-!
# Authentication and the auth server's answer

A web client is authenticated when `token_verify` answers a positive number.  That is so
when the answer's body is `1` up to its first NUL, and when the answer has no end of
headers and a positive number is left where the value of `token_verify` is read.
-/

set_option autoImplicit false

namespace WifiCat.Analysis

open CommandProgram Netfilter Scan

variable {server : AuthServer} {arrival : Moment} {moment : HttpMoment} {r : HttpRequest}
  {w : World} {h : Host} {out : Outside}

/-! ## The answer -/

/-- The bytes of the auth server's answer, if one arrives.
SOURCE: centerserver.c:153-224, http.c:209-221 -/
def answerBytes (server : AuthServer) (moment : HttpMoment) : Option Text :=
  match resolveHost moment.net.lookup server.authServer moment.fuel 0 with
  | some (some _) =>
    if connectAuthServer moment.net.connect then
      readResponse moment.net.ending (MAX_BUF - 1) moment.net.chunks
    else none
  | _ => none

/-- The bytes after the first end of headers are `1`. -/
def Approves (bytes : Text) : Prop := strstrAfter CRLFCRLF bytes = some "1".toList

instance (bytes : Text) : Decidable (Approves bytes) := inferInstanceAs (Decidable (_ = _))

/-- What `token_verify` makes of an answer, as C strings: positive, or not.
SOURCE: http.c:224-239 -/
def Accepted (leftover : ℤ) (bytes : Text) : Prop :=
  match strstrAfter CRLFCRLF (cString bytes) with
  | none => 0 < leftover
  | some result => result = "1".toList

/-- INTERNAL: the value of `token_verify` is positive exactly for an accepted answer.
SOURCE: http.c:203-240 -/
theorem tokenVerify_cases (server : AuthServer) (moment : HttpMoment) (requestToken mac : Text) :
    (tokenVerify server moment requestToken mac = none ∧ answerBytes server moment = none) ∨
    ∃ verified, tokenVerify server moment requestToken mac = some verified ∧
      (0 < verified ↔ ∃ bytes, answerBytes server moment = some bytes ∧
        Accepted moment.leftover bytes) := by
  unfold tokenVerify tokenExchange answerBytes
  cases hresolve : resolveHost moment.net.lookup server.authServer moment.fuel 0 with
  | none => exact Or.inl ⟨rfl, rfl⟩
  | some resolved =>
    refine Or.inr ⟨_, rfl, ?_⟩
    cases resolved with
    | none => simp
    | some ip =>
      simp only [httpGetRequest]
      by_cases hconnect : connectAuthServer moment.net.connect = true
      · rw [if_pos hconnect, if_pos hconnect]
        cases hread : readResponse moment.net.ending (MAX_BUF - 1) moment.net.chunks with
        | none => simp
        | some bytes =>
          simp only [Option.some.injEq, exists_eq_left', Accepted]
          cases strstrAfter CRLFCRLF (cString bytes) with
          | none => exact Iff.rfl
          | some result =>
            dsimp only
            split
            · next heq => exact iff_of_true one_pos heq
            · next hne => exact iff_of_false (lt_irrefl 0) hne
      · rw [if_neg hconnect, if_neg hconnect]
        simp

/-! ## What is claimed, and when it holds -/

/-- A request changes the daemon's state beyond `client_list_add_client`, or the tables, only
if the auth server approves. -/
def NeedsApproval (out : Outside) (server : AuthServer) (arrival : Moment) (moment : HttpMoment)
    (r : HttpRequest) (w : World) (h : Host) : Prop :=
  let after := runOn out (httpCallbackAuth server arrival moment r w) h
  (∃ bytes, answerBytes server moment = some bytes ∧ Approves bytes) ∨
    (after.1.2 = (addClient arrival r.clientAddr w).2 ∧ after.2.tables = h.tables)

/-- The request leads to a client that is not authenticated, and the auth server is asked
about it.
SOURCE: http.c:262-310, 374-377 -/
def AsksAbout (arrival : Moment) (moment : HttpMoment) (r : HttpRequest) (w : World) : Prop :=
  (addClient arrival r.clientAddr w).1 ≠ none ∧
    ∃ mac client, arpGet moment.arpTable r.clientAddr = some mac ∧
      clientListFind r.clientAddr mac (addClient arrival r.clientAddr w).2.clients = some client ∧
      client.token ≠ none ∧ client.fwConnectionState ≠ w.fw.fwMarkAuthenticated

/-- INTERNAL: once it is asked about a client, the action follows the verdict.
SOURCE: http.c:311-337 -/
theorem run_callbackAuth_of_asks (hasks : AsksAbout arrival moment r w) :
    (runOn out (httpCallbackAuth server arrival moment r w) h).1.2 =
        (addClient arrival r.clientAddr w).2 ∧
        (runOn out (httpCallbackAuth server arrival moment r w) h).2.tables = h.tables ↔
      ∀ bytes, answerBytes server moment = some bytes → ¬Accepted moment.leftover bytes := by
  obtain ⟨hadded, mac, client, harp, hfind, htoken, hstate⟩ := hasks
  obtain ⟨added, hadded⟩ := Option.ne_none_iff_exists'.mp hadded
  obtain ⟨token, htoken⟩ := Option.ne_none_iff_exists'.mp htoken
  simp only [httpCallbackAuth, hadded, httpCallbackAction, httpDecodeAuthtarget, harp, hfind, htoken]
  rcases tokenVerify_cases server moment (r.tok.getD []) mac with
    ⟨hnone, hbytes⟩ | ⟨verified, hverified, hpos⟩
  · simp [hnone, hbytes]
  · rw [hverified]
    dsimp only
    split
    · next hle =>
      refine iff_of_true ⟨rfl, rfl⟩ fun bytes hbytes haccepted => ?_
      exact absurd (hpos.mpr ⟨bytes, hbytes, haccepted⟩) (not_lt.mpr hle)
    · next hle =>
      obtain ⟨bytes, hbytes, haccepted⟩ := hpos.mp (not_le.mp hle)
      refine iff_of_false (fun hsame => ?_) fun hno => hno bytes hbytes haccepted
      -- the authentication is counted
      have hfw : (addClient arrival r.clientAddr w).2.fw = w.fw := rfl
      have hcount := congrArg World.authenticatedSinceStart hsame.1
      simp only [authClientAction, hfind, hfw, hstate, ne_eq, not_false_eq_true, if_true, runOn,
        Prog.run_bind, Prog.pure_eq, Prog.run_done] at hcount
      omega

/-- INTERNAL: unless it is asked about a client that is not authenticated, nothing happens.
SOURCE: http.c:262-310, auth.c:110 -/
theorem run_callbackAuth_of_not_asks (hasks : ¬AsksAbout arrival moment r w) :
    (runOn out (httpCallbackAuth server arrival moment r w) h).1.2 =
        (addClient arrival r.clientAddr w).2 ∧
      (runOn out (httpCallbackAuth server arrival moment r w) h).2.tables = h.tables := by
  cases hadded : (addClient arrival r.clientAddr w).1 with
  | none =>
    simp only [httpCallbackAuth, hadded]
    exact ⟨rfl, rfl⟩
  | some added =>
    simp only [httpCallbackAuth, hadded, httpCallbackAction, httpDecodeAuthtarget]
    cases harp : arpGet moment.arpTable r.clientAddr with
    | none => exact ⟨rfl, rfl⟩
    | some mac =>
      cases hfind : clientListFind r.clientAddr mac (addClient arrival r.clientAddr w).2.clients with
      | none =>
        simp only [hfind]
        exact ⟨rfl, rfl⟩
      | some client =>
        cases htoken : client.token with
        | none =>
          simp only [hfind, htoken]
          exact ⟨rfl, rfl⟩
        | some token =>
          simp only [hfind, htoken]
          cases tokenVerify server moment (r.tok.getD []) mac with
          | none => exact ⟨rfl, rfl⟩
          | some verified =>
            dsimp only
            split
            · exact ⟨rfl, rfl⟩
            · have hstate : client.fwConnectionState =
                  (addClient arrival r.clientAddr w).2.fw.fwMarkAuthenticated := by
                by_contra hne
                exact hasks ⟨by simp [hadded], mac, client, harp, hfind, by simp [htoken], hne⟩
              simp only [authClientAction, hfind, hstate, ne_eq, not_true_eq_false, if_false, runOn,
                Prog.run_bind, Prog.pure_eq, Prog.run_done, and_self]

/-- **Authentication needs the auth server's approval** exactly when no answer that is
accepted lacks it: an answer without an end of headers must leave no positive number
behind, and `1` must be the whole body, not only its part up to a NUL.
SOURCE: http.c:203-352, 366-385 -/
theorem needs_approval_iff (out : Outside) (server : AuthServer) (arrival : Moment)
    (moment : HttpMoment) (r : HttpRequest) (w : World) (h : Host) :
    NeedsApproval out server arrival moment r w h ↔
      (AsksAbout arrival moment r w → ∀ bytes, answerBytes server moment = some bytes →
        Accepted moment.leftover bytes → Approves bytes) := by
  by_cases hasks : AsksAbout arrival moment r w
  · rw [NeedsApproval, run_callbackAuth_of_asks hasks]
    simp only [hasks, true_implies]
    constructor
    · rintro (⟨bytes, hbytes, happroves⟩ | hno) bytes' hbytes' haccepted
      · rwa [Option.some.inj (hbytes'.symm.trans hbytes)]
      · exact absurd haccepted (hno bytes' hbytes')
    · intro hall
      cases hbytes : answerBytes server moment with
      | none => exact Or.inr (by simp)
      | some bytes =>
        by_cases haccepted : Accepted moment.leftover bytes
        · exact Or.inl ⟨bytes, rfl, hall bytes hbytes haccepted⟩
        · refine Or.inr fun bytes' hbytes' => ?_
          rwa [← Option.some.inj hbytes']
  · exact iff_of_true (Or.inr (run_callbackAuth_of_not_asks hasks)) fun h => absurd h hasks

/-- An auth server that accepts the connection and closes it without a word, while a 1 is left
where the value of `token_verify` is read. -/
def silentServer : HttpMoment :=
  { arpTable := sampleArpTable
    net :=
      { lookup := fun _ _ => some (10, 0, 0, 1)
        connect := fun _ => true
        chunks := []
        ending := .closed }
    leftover := 1
    fuel := 1 }

/-- A daemon without clients. -/
def idleWorld : World :=
  { config := {}, fw := { fwMarkAuthenticated := 0x400 }, clients := clientListInit 20 }

/-- A client is authenticated although the auth server has sent nothing.
SOURCE: http.c:226-230, 311 -/
theorem authenticated_without_approval :
    ¬NeedsApproval obligingMachine {} (sampleMoment 1) silentServer
      { clientAddr := "10.0.0.2".toList, tok := some "x".toList, redir := none } idleWorld
      emptyRouter := by
  rintro (⟨bytes, hbytes, happroves⟩ | ⟨hsame, -⟩)
  · have hempty : bytes = [] := Option.some.inj (hbytes.symm.trans (by decide))
    rw [hempty] at happroves
    exact absurd happroves (by decide)
  · exact absurd (congrArg World.authenticatedSinceStart hsame) (by decide +kernel)

end WifiCat.Analysis
