import WifiCat.Model.HttpdRequest

/-!
# How a request is read

What `libhttpd` reads of a request is a function of the bytes that arrive, however they are cut
into pieces.  Its lines go through one buffer, in which a line of 10240 characters leaves no room
for its terminator; the credentials go through another one.
-/

set_option autoImplicit false

namespace WifiCat.Analysis

open Scan PieceReader

variable {st : HttpdReading} {r r' r₁ r₂ : Reader Char} {buf : Buffer Char}

/-! ## Pieces -/

theorem readHeaders_of_none (h : httpdReadLine r st.buf HTTP_MAX_LEN = none) :
    httpdReadHeaders st r = st := by
  rw [httpdReadHeaders]
  split
  · rfl
  · next hsome => rw [h] at hsome; cases hsome

theorem readHeaders_of_some (h : httpdReadLine r st.buf HTTP_MAX_LEN = some (buf, r')) :
    httpdReadHeaders st r =
      if cString buf.bytes = [] then { st with buf := buf }
      else httpdReadHeaders (httpdHeader { st with buf := buf }) r' := by
  rw [httpdReadHeaders]
  split
  · next hnone => rw [h] at hnone; cases hnone
  · next buf' r'' hsome =>
    rw [h, Option.some.injEq, Prod.mk.injEq] at hsome
    obtain ⟨rfl, rfl⟩ := hsome
    rfl

/-- INTERNAL: a line is read alike from two readers of one stream.
SOURCE: protocol.c:81-133 -/
theorem readLine_congr (buf : Buffer Char) (len : ℕ) (h : r₁.stream = r₂.stream) :
    (httpdReadLine r₁ buf len = none ∧ httpdReadLine r₂ buf len = none) ∨
      ∃ line r₁' r₂', httpdReadLine r₁ buf len = some (line, r₁') ∧
        httpdReadLine r₂ buf len = some (line, r₂') ∧ r₁'.stream = r₂'.stream :=
  feed_congr (httpdReadLineStep len) (0, buf) h

/-- INTERNAL: the headers are read alike from two readers of one stream.
SOURCE: api.c:401-471 -/
theorem readHeaders_congr (st : HttpdReading) (h : r₁.stream = r₂.stream) :
    httpdReadHeaders st r₁ = httpdReadHeaders st r₂ := by
  induction hlen : r₁.stream.length using Nat.strongRecOn generalizing st r₁ r₂ with
  | ind n ih =>
    rcases readLine_congr st.buf HTTP_MAX_LEN h with ⟨h₁, h₂⟩ | ⟨line, r₁', r₂', h₁, h₂, hrest⟩
    · rw [readHeaders_of_none h₁, readHeaders_of_none h₂]
    · rw [readHeaders_of_some h₁, readHeaders_of_some h₂]
      split
      · rfl
      · exact ih _ (hlen ▸ feed_length h₁) _ hrest rfl

/-- **A request does not depend on how it arrives**: what is read of it, what is answered and
what is stored where is the same for all pieces that make up the same bytes.
SOURCE: protocol.c:81-133, api.c:381-612 -/
theorem readRequest_any_pieces (stack : Text) {r₁ r₂ : Reader Char} (h : r₁.stream = r₂.stream) :
    httpdReadRequest stack r₁ = httpdReadRequest stack r₂ := by
  unfold httpdReadRequest
  rcases readLine_congr { bytes := stack } HTTP_MAX_LEN h with
    ⟨h₁, h₂⟩ | ⟨line, r₁', r₂', h₁, h₂, hrest⟩
  · simp only [h₁, h₂]
  · simp only [h₁, h₂]
    split
    · rfl
    · rw [readHeaders_congr _ hrest]

/-- Pieces of a request, and the same bytes at once. -/
theorem readRequest_any_pieces_sample :
    httpdReadRequest (List.replicate HTTP_MAX_LEN '\x00')
        ⟨[], ["GET /a H".toList, "TTP/1.0\r".toList, "\n\r\n".toList]⟩ =
      httpdReadRequest (List.replicate HTTP_MAX_LEN '\x00')
        ⟨[], ["GET /a HTTP/1.0\r\n\r\n".toList]⟩ :=
  readRequest_any_pieces _ (by decide)

/-! ## Lines -/

/-- The line a stream starts with, without its carriage returns, where there is room for so many
characters; and what is left of the stream. -/
def lineAhead : ℕ → Text → Option (Text × Text)
  | _, [] => none
  | room, c :: s =>
    if c = '\n' ∨ 128 ≤ c.toNat then some ([], s)
    else if c = '\r' then lineAhead room s
    else if 1 < room then (lineAhead (room - 1) s).map fun line => (c :: line.1, line.2)
    else some ([c], s)

/-- The buffer with a line: one that fills it has no terminator, which is stored behind it. -/
def lineBuffer (stale : Text) (outside : Bool) (line : Text) : Buffer Char :=
  if line.length < stale.length then
    ⟨line ++ '\x00' :: stale.drop (line.length + 1), outside⟩
  else ⟨line, true⟩

theorem lineAhead_length {room : ℕ} {s line rest : Text} (h : lineAhead room s = some (line, rest))
    (hroom : 0 < room) : line.length ≤ room := by
  induction s generalizing room line with
  | nil => cases h
  | cons c s ih =>
    rw [lineAhead] at h
    split at h
    · rw [Option.some.injEq, Prod.mk.injEq] at h
      obtain ⟨rfl, -⟩ := h
      exact Nat.zero_le _
    · split at h
      · exact ih h hroom
      · split at h
        · next hlt =>
          obtain ⟨p, hp, heq⟩ := Option.map_eq_some_iff.mp h
          rw [Prod.mk.injEq] at heq
          obtain ⟨rfl, rfl⟩ := heq
          have hle := ih hp (by omega)
          rw [List.length_cons]
          omega
        · rw [Option.some.injEq, Prod.mk.injEq] at h
          obtain ⟨rfl, -⟩ := h
          exact hroom

/-- INTERNAL: the terminator behind what is stored of a line. -/
theorem write_terminator {pre stale : Text} {o : Bool} (h : pre.length ≤ stale.length) :
    Buffer.write ⟨pre ++ stale.drop pre.length, o⟩ pre.length ['\x00'] =
      lineBuffer stale o pre := by
  unfold lineBuffer
  split
  · next hlt =>
    rw [Buffer.write_append (by rw [List.length_singleton]; omega)]
    simp
  · next hge =>
    have hlen : stale.length = pre.length := by omega
    rw [List.drop_eq_nil_of_le hlen.le, List.append_nil, Buffer.write, if_neg (by simp)]

/-- INTERNAL: the loop of a line, with a part of it stored.
SOURCE: protocol.c:107-130 -/
theorem feedList_readLineStep (stale pre : Text) (o : Bool) (s : Text)
    (h : pre.length < stale.length) :
    feedList (httpdReadLineStep stale.length)
        (pre.length, ⟨pre ++ stale.drop pre.length, o⟩) s =
      (lineAhead (stale.length - pre.length) s).map fun line =>
        (lineBuffer stale o (pre ++ line.1), line.2) := by
  induction s generalizing pre with
  | nil => rfl
  | cons c s ih =>
    rw [feedList, lineAhead]
    by_cases hend : c = '\n' ∨ 128 ≤ c.toNat
    · simp only [httpdReadLineStep, if_pos hend, Option.map_some, List.append_nil,
        write_terminator h.le]
    · by_cases hcr : c = '\r'
      · have hstep : httpdReadLineStep stale.length
            (pre.length, ⟨pre ++ stale.drop pre.length, o⟩) c =
              .inl (pre.length, ⟨pre ++ stale.drop pre.length, o⟩) := by
          simp only [httpdReadLineStep, if_neg hend, if_pos hcr]
        rw [hstep, if_neg hend, if_pos hcr]
        exact ih pre h
      · have hstore : Buffer.write ⟨pre ++ stale.drop pre.length, o⟩ pre.length [c] =
            ⟨(pre ++ [c]) ++ stale.drop (pre ++ [c]).length, o⟩ :=
          Buffer.write_append (by rw [List.length_singleton]; omega)
        have hlength : (pre ++ [c]).length = pre.length + 1 := by simp
        rw [if_neg hend, if_neg hcr]
        by_cases hroom : pre.length + 1 < stale.length
        · have hstep : httpdReadLineStep stale.length
              (pre.length, ⟨pre ++ stale.drop pre.length, o⟩) c =
                .inl ((pre ++ [c]).length, ⟨(pre ++ [c]) ++ stale.drop (pre ++ [c]).length, o⟩) := by
            simp only [httpdReadLineStep, if_neg hend, if_neg hcr, hstore, hlength, if_pos hroom]
          rw [hstep, if_pos (show 1 < stale.length - pre.length by omega), Option.map_map]
          show feedList _ _ s = _
          rw [ih (pre ++ [c]) (by omega), hlength, Nat.sub_sub]
          congr 1
          funext line
          simp
        · have hstep : httpdReadLineStep stale.length
              (pre.length, ⟨pre ++ stale.drop pre.length, o⟩) c =
                .inr (lineBuffer stale o (pre ++ [c])) := by
            rw [← write_terminator (by omega), hlength]
            simp only [httpdReadLineStep, if_neg hend, if_neg hcr, hstore, hlength, if_neg hroom]
          rw [hstep, if_neg (show ¬1 < stale.length - pre.length by omega)]
          rfl

/-- INTERNAL: what a line leaves in the buffer, and what of the stream.
SOURCE: protocol.c:98-133 -/
theorem readLine_eq {stale : Text} {o : Bool} (h : 0 < stale.length) (r : Reader Char) :
    (httpdReadLine r ⟨stale, o⟩ stale.length).map (Prod.map id Reader.stream) =
      (lineAhead stale.length r.stream).map fun line => (lineBuffer stale o line.1, line.2) := by
  unfold httpdReadLine
  rw [feed_stream]
  simpa using feedList_readLineStep stale [] o r.stream h

/-- A line takes something from the stream. -/
theorem lineAhead_shorter {room : ℕ} {s line rest : Text} (h : lineAhead room s = some (line, rest)) :
    rest.length < s.length := by
  induction s generalizing room line with
  | nil => cases h
  | cons c s ih =>
    rw [List.length_cons]
    rw [lineAhead] at h
    split at h
    · rw [Option.some.injEq, Prod.mk.injEq] at h
      obtain ⟨-, rfl⟩ := h
      omega
    · split at h
      · have hlt := ih h
        omega
      · split at h
        · obtain ⟨p, hp, heq⟩ := Option.map_eq_some_iff.mp h
          rw [Prod.mk.injEq] at heq
          obtain ⟨rfl, rfl⟩ := heq
          have hlt := ih hp
          omega
        · rw [Option.some.injEq, Prod.mk.injEq] at h
          obtain ⟨-, rfl⟩ := h
          omega

/-- INTERNAL: a line is read exactly when the stream has one.
SOURCE: protocol.c:98-133 -/
theorem readLine_cases {stale : Text} (h : stale.length = HTTP_MAX_LEN) (o : Bool)
    (r : Reader Char) :
    (httpdReadLine r ⟨stale, o⟩ HTTP_MAX_LEN = none ∧ lineAhead HTTP_MAX_LEN r.stream = none) ∨
      ∃ line r', httpdReadLine r ⟨stale, o⟩ HTTP_MAX_LEN = some (lineBuffer stale o line, r') ∧
        lineAhead HTTP_MAX_LEN r.stream = some (line, r'.stream) := by
  have hpos : 0 < stale.length := by
    rw [h]
    decide
  have heq := readLine_eq (o := o) hpos r
  rw [h] at heq
  cases hline : lineAhead HTTP_MAX_LEN r.stream with
  | none =>
    rw [hline] at heq
    exact Or.inl ⟨Option.map_eq_none_iff.mp heq, rfl⟩
  | some p =>
    rw [hline] at heq
    obtain ⟨q, hq, hpq⟩ := Option.map_eq_some_iff.mp heq
    rw [Prod.map_apply', Prod.mk.injEq] at hpq
    refine Or.inr ⟨p.1, q.2, hq.trans (congrArg some (Prod.ext hpq.1 rfl)), ?_⟩
    exact congrArg some (Prod.ext rfl hpq.2.symm)

theorem lineBuffer_outside (stale line : Text) (o : Bool) :
    (lineBuffer stale o line).outside = (o || decide (stale.length ≤ line.length)) := by
  unfold lineBuffer
  split
  · next h => simp [Nat.not_le.mpr h]
  · next h => simp [Nat.not_lt.mp h]

theorem lineBuffer_length {stale line : Text} (o : Bool) (h : line.length ≤ stale.length) :
    (lineBuffer stale o line).bytes.length = stale.length := by
  unfold lineBuffer
  split
  · simp only [List.length_append, List.length_cons, List.length_drop]
    omega
  · dsimp only
    omega

/-- The string in the buffer is the one in the line. -/
theorem cString_lineBuffer (stale line : Text) (o : Bool) :
    cString (lineBuffer stale o line).bytes = cString line := by
  unfold lineBuffer
  split
  · exact cString_append_nul line _
  · rfl

end WifiCat.Analysis
