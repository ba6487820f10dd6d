import WifiCat.Analysis.ControlFraming

/-!
# A control command, from `ndsctl` to the daemon

`ndsctl` writes the name of the command, a blank and the parameter into a buffer that keeps
123 characters of them.  Whatever `write` and `read` make of the request, the daemon calls
the function of the command with what was kept of the parameter.
-/

set_option autoImplicit false

namespace WifiCat.Analysis

open Scan

variable {command : NdsctlCommand} {param : Text}

/-- The function of a command. -/
def commandHandler : NdsctlCommand → NdsctlHandler
  | .block => .mac .block
  | .unblock => .mac .unblock
  | .allow => .mac .allow
  | .unallow => .mac .unallow
  | .trust => .mac .trust
  | .untrust => .mac .untrust
  | .auth => .auth
  | .deauth => .deauth
  | .loglevel => .loglevel
  | .password => .password
  | .username => .username

/-- The most characters of a parameter that fit.
SOURCE: ndsctl.c:316 -/
def paramRoom (command : NdsctlCommand) : ℕ := 122 - command.cmd.length

theorem cmd_length (command : NdsctlCommand) : command.cmd.length ≤ 8 := by
  cases command <;> decide

/-- INTERNAL: partial writes transmit the request.
SOURCE: ndsctl.c:282-299 -/
theorem sendRequest_eq_some {request sent : Text} {len : ℕ} {writes : List ℕ}
    (hlen : len ≤ request.length) (h : sendRequest request len writes = some sent) :
    sent = request.drop len := by
  induction writes generalizing len sent with
  | nil =>
    unfold sendRequest at h
    split at h
    · next heq => rw [← Option.some.inj h, heq, List.drop_length]
    · cases h
  | cons w writes ih =>
    unfold sendRequest at h
    split at h
    · next heq => rw [← Option.some.inj h, heq, List.drop_length]
    · obtain ⟨rest, hrest, rfl⟩ := Option.map_eq_some_iff.mp h
      have hwritten : ((request.drop len).take w).length ≤ request.length - len := by
        rw [List.length_take, List.length_drop]
        exact Nat.min_le_right _ _
      rw [ih (by omega) hrest, ← List.drop_drop]
      exact List.prefix_iff_eq_append.mp (List.take_prefix w (request.drop len))

/-- INTERNAL: the line that is sent.
SOURCE: ndsctl.c:316-318 -/
theorem ndsctlActionRequest_eq (command : NdsctlCommand) (param : Text) :
    ndsctlActionRequest command.cmd param =
      command.cmd ++ ' ' :: param.take (paramRoom command) ++ "\r\n\r\n".toList := by
  have hlength := cmd_length command
  have hkeep : 128 - NDSCTL_TERMINATOR.length - 1 = 123 := by decide
  have hblank : " ".toList = [' '] := by decide
  obtain ⟨n, hn⟩ : ∃ n, 123 - command.cmd.length = n + 1 := ⟨122 - command.cmd.length, by omega⟩
  have hroom : n = paramRoom command := by rw [paramRoom]; omega
  rw [ndsctlActionRequest, hkeep, hblank, List.append_assoc, List.take_append,
    List.take_of_length_le (by omega), hn, List.singleton_append, List.take_succ_cons, hroom]
  rfl

/-- INTERNAL: the daemon finds the command and the parameter.
SOURCE: ndsctl_thread.c:194-222 -/
theorem dispatch_command (command : NdsctlCommand) (param : Text) :
    ndsctlDispatch (command.cmd ++ ' ' :: param) =
      some (commandHandler command, some (cString param)) := by
  cases command <;> rfl

/-- INTERNAL: whatever `write` and `read` make of a request, the daemon calls the function of
the command with the part of the parameter that fits.
SOURCE: ndsctl.c:282-323, ndsctl_thread.c:154-238 -/
theorem handler_of_sent (hparam : ∀ c ∈ param, isBreak c = false) (hnul : '\x00' ∉ param)
    {writes : List ℕ} {sent : Text}
    (hsent : sendRequest (ndsctlActionRequest command.cmd param) 0 writes = some sent)
    {chunks : List Text} (hchunks : chunks.flatten = sent) (beyond : Text) (ending : StreamEnd) :
    (∃ fuel call, threadNdsctlHandler beyond ending chunks fuel = some call) ∧
      ∀ fuel call, threadNdsctlHandler beyond ending chunks fuel = some call →
        call = some (commandHandler command, some (param.take (paramRoom command))) := by
  have hstream : chunks.flatten =
      command.cmd ++ ' ' :: param.take (paramRoom command) ++ "\r\n\r\n".toList := by
    rw [hchunks, sendRequest_eq_some (Nat.zero_le _) hsent, List.drop_zero, ndsctlActionRequest_eq]
  have hcut : ∀ c ∈ param.take (paramRoom command), isBreak c = false := fun c hc =>
    hparam c (List.mem_of_mem_take hc)
  have hcmd : ∀ c ∈ command.cmd, isBreak c = false := by cases command <;> decide
  have hline : ∀ c ∈ command.cmd ++ ' ' :: param.take (paramRoom command), isBreak c = false := by
    rw [List.forall_mem_append, List.forall_mem_cons]
    exact ⟨hcmd, rfl, hcut⟩
  have hfirst : firstLine chunks.flatten =
      some (command.cmd ++ ' ' :: param.take (paramRoom command)) := by
    have hbreak := cut_line (v := "\n\r\n".toList) hline (show isBreak '\r' = true from rfl)
    rw [hstream]
    exact (if_pos hbreak.1).trans (congrArg some hbreak.2.1)
  have hsoon : (command.cmd ++ ' ' :: param.take (paramRoom command)).length < MAX_BUF - 1 := by
    have hlength := cmd_length command
    have htake := List.length_take_le (paramRoom command) param
    have hsize : MAX_BUF - 1 = 4095 := rfl
    rw [List.length_append, List.length_cons, hsize]
    unfold paramRoom at htake ⊢
    omega
  -- the name of a command has no blank
  have hnames : ∀ entry ∈ ndsctlTable, ' ' ∉ entry.1 := by decide
  have htakes : ¬TakesArgument (command.cmd ++ ' ' :: param.take (paramRoom command)) := by
    rintro ⟨entry, hentry, hname, -⟩
    exact hnames entry hentry (by simp [hname])
  obtain ⟨hends, hcall⟩ := handler_line_iff hfirst hsoon
  refine ⟨hends, fun fuel call hrun => ?_⟩
  rw [hcall.mpr (fun h => absurd h htakes) fuel call hrun, dispatch_command,
    cString_of_not_mem fun h => hnul (List.mem_of_mem_take h)]

/-- The daemon calls the function of the command with the whole parameter, however the request
is written and read. -/
def RoundTrip (command : NdsctlCommand) (param : Text) : Prop :=
  ∀ (writes : List ℕ) (sent : Text),
    sendRequest (ndsctlActionRequest command.cmd param) 0 writes = some sent →
    ∀ (chunks : List Text), chunks.flatten = sent → ∀ (beyond : Text) (ending : StreamEnd),
      (∃ fuel call, threadNdsctlHandler beyond ending chunks fuel = some call) ∧
        ∀ fuel call, threadNdsctlHandler beyond ending chunks fuel = some call →
          call = some (commandHandler command, some param)

/-- INTERNAL: a parameter that arrives was not cut. -/
theorem RoundTrip.fits (hparam : ∀ c ∈ param, isBreak c = false) (hnul : '\x00' ∉ param)
    (h : RoundTrip command param) : param.length ≤ paramRoom command := by
  -- one write and one read
  have hsent : sendRequest (ndsctlActionRequest command.cmd param) 0
      [(ndsctlActionRequest command.cmd param).length] =
      some (ndsctlActionRequest command.cmd param) := by
    have hne : (0 : ℕ) ≠ (ndsctlActionRequest command.cmd param).length := by
      rw [ndsctlActionRequest_eq, List.length_append, List.length_append, List.length_cons]
      omega
    simp [sendRequest, hne]
  have hchunks : [ndsctlActionRequest command.cmd param].flatten =
      ndsctlActionRequest command.cmd param := by simp
  obtain ⟨⟨fuel, call, hrun⟩, hcut⟩ := handler_of_sent hparam hnul hsent hchunks [] .endOfFile
  have hwhole := (h _ _ hsent _ hchunks [] .endOfFile).2 fuel call hrun
  rw [hcut fuel call hrun] at hwhole
  simp only [Option.some.injEq, Prod.mk.injEq, true_and] at hwhole
  exact (List.take_eq_self_iff param).mp hwhole

/-- **A control command arrives** with its whole parameter exactly when the name, a blank and
the parameter have at most 123 characters.
SOURCE: ndsctl.c:282-344, ndsctl_thread.c:154-238 -/
theorem round_trip_iff (command : NdsctlCommand) (param : Text)
    (hparam : ∀ c ∈ param, isBreak c = false) (hnul : '\x00' ∉ param) :
    RoundTrip command param ↔ command.cmd.length + 1 + param.length ≤ 123 := by
  have hlength := cmd_length command
  have hfits : command.cmd.length + 1 + param.length ≤ 123 ↔ param.length ≤ paramRoom command := by
    rw [paramRoom]
    omega
  rw [hfits]
  constructor
  · exact RoundTrip.fits hparam hnul
  · intro hle writes sent hsent chunks hchunks beyond ending
    have harrives := handler_of_sent hparam hnul hsent hchunks beyond ending
    rwa [List.take_of_length_le hle] at harrives

/-- A MAC address arrives. -/
theorem round_trip_mac : RoundTrip .block "00:11:22:33:44:55".toList :=
  (round_trip_iff .block "00:11:22:33:44:55".toList (by decide) (by decide)).mpr (by decide)

/-- A password of 115 characters does not arrive.
SOURCE: ndsctl.c:316 -/
theorem not_round_trip : ¬RoundTrip .password (List.replicate 115 'a') := by
  intro h
  have hfits := h.fits (by decide) (by decide)
  exact absurd hfits (by decide)

end WifiCat.Analysis
