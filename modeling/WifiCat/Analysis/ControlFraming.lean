import WifiCat.Model.NdsctlThread

/-!
# The framing of control requests

The loop that reads a request keeps one invariant: the buffer holds what was read, with a
NUL for each line break, and zeros behind it (`filled`).  `collected` is what has been read
when the loop wants no more or the stream is used up, and `handler_iff` says what the thread
then does.
-/

set_option autoImplicit false

namespace WifiCat.Analysis

open Scan WhileLoop

variable {beyond line s : Text} {ending : StreamEnd} {chunks : List Text}

/-! ## Which function is called -/

/-- The names of the commands with an argument. -/
def TakesArgument (name : Text) : Prop :=
  ∃ entry ∈ ndsctlTable, entry.1 = name ∧ entry.2.2.isSome

instance (name : Text) : Decidable (TakesArgument name) :=
  inferInstanceAs (Decidable (∃ entry ∈ ndsctlTable, _))

/-- INTERNAL: the names hold no NUL, and the argument is looked for one character behind.
SOURCE: ndsctl_thread.c:194-222 -/
theorem ndsctlTable_names :
    ∀ entry ∈ ndsctlTable, '\x00' ∉ entry.1 ∧ entry.1.length ≤ 8 ∧
      (entry.2.2 = none ∨ entry.2.2 = some (entry.1.length + 1)) := by
  decide

/-- INTERNAL: no name starts another one.
SOURCE: ndsctl_thread.c:194-222 -/
theorem ndsctlTable_first :
    ∀ entry ∈ ndsctlTable, ∀ other ∈ ndsctlTable, entry.1.isPrefixOf other.1 = true →
      entry = other := by
  decide

/-- INTERNAL: a name starts a line in memory if it starts the line. -/
theorem isPrefixOf_line {name : Text} (hname : '\x00' ∉ name) (line after : Text) :
    name.isPrefixOf (line ++ '\x00' :: after) = name.isPrefixOf line := by
  induction name generalizing line with
  | nil => rfl
  | cons c name ih =>
    rw [List.mem_cons, not_or] at hname
    cases line with
    | nil => simp [List.isPrefixOf, Ne.symm hname.1]
    | cons d line =>
      rw [List.cons_append, List.isPrefixOf_cons_cons, List.isPrefixOf_cons_cons, ih hname.2]

/-- INTERNAL: the argument of a line is that of the line alone, unless the line ends with the
name and something stands behind its NUL. -/
theorem argument_line_iff (name arg after : Text) :
    cString ((name ++ arg ++ '\x00' :: after).drop (name.length + 1)) =
        cString ((name ++ arg).drop (name.length + 1)) ↔ (arg = [] → cString after = []) := by
  have hdrop : ∀ w : Text, (name ++ w).drop (name.length + 1) = w.drop 1 := fun w => by
    rw [← List.drop_drop, List.drop_left]
  rw [List.append_assoc, hdrop, hdrop]
  cases arg with
  | nil =>
    simp only [List.nil_append, List.drop_succ_cons, List.drop_zero, List.drop_nil, forall_const]
    exact Iff.rfl
  | cons c arg =>
    simp only [List.cons_append, List.drop_succ_cons, List.drop_zero]
    exact iff_of_true (cString_append_nul arg after) fun h => by cases h

/-- INTERNAL: the call for a line is that for the line alone, unless the line is the name of a
command with an argument and something stands behind its NUL.
SOURCE: ndsctl_thread.c:194-222 -/
theorem dispatch_line_iff (line after : Text) :
    ndsctlDispatch (line ++ '\x00' :: after) = ndsctlDispatch line ↔
      (TakesArgument line → cString after = []) := by
  have hfind : (ndsctlTable.find? fun entry => entry.1.isPrefixOf (line ++ '\x00' :: after)) =
      ndsctlTable.find? fun entry => entry.1.isPrefixOf line := by
    refine List.find?_congr fun entry hentry => ?_
    exact isPrefixOf_line (ndsctlTable_names entry hentry).1 line after
  unfold ndsctlDispatch
  rw [hfind]
  cases hcase : ndsctlTable.find? fun entry => entry.1.isPrefixOf line with
  | none =>
    refine iff_of_true rfl ?_
    rintro ⟨entry, hentry, rfl, -⟩
    have hno := List.find?_eq_none.mp hcase entry hentry
    exact absurd (List.isPrefixOf_iff_prefix.mpr (List.prefix_refl _)) hno
  | some entry =>
    have hentry := List.mem_of_find?_eq_some hcase
    have hpre : entry.1.isPrefixOf line = true := by simpa using List.find?_some hcase
    have hsame : TakesArgument line → entry.1 = line ∧ entry.2.2.isSome := by
      rintro ⟨other, hother, rfl, hsome⟩
      rw [ndsctlTable_first entry hentry other hother hpre]
      exact ⟨rfl, hsome⟩
    simp only [Option.map_some, Option.some.injEq, Prod.mk.injEq, true_and]
    rcases (ndsctlTable_names entry hentry).2.2 with hnone | hoffset
    · rw [hnone]
      refine iff_of_true rfl fun htakes => ?_
      have hsome := (hsame htakes).2
      rw [hnone] at hsome
      cases hsome
    · rw [hoffset]
      simp only [Option.map_some, Option.some.injEq]
      obtain ⟨arg, rfl⟩ := List.isPrefixOf_iff_prefix.mp hpre
      rw [argument_line_iff]
      refine ⟨fun h htakes => h ?_, fun h harg => h ⟨entry, hentry, ?_, by rw [hoffset]; rfl⟩⟩
      · simpa using (hsame htakes).1
      · rw [harg, List.append_nil]

/-! ## What the loop reads -/

/-- A text with a NUL for each line break. -/
def terminated (s : Text) : Text := s.map fun c => if isBreak c then '\x00' else c

/-- The variables of the loop when it has read `s`. -/
def filled (chunks : List Text) (s : Text) : NdsctlReading :=
  { chunks := chunks
    request := terminated s ++ List.replicate (MAX_BUF - s.length) '\x00'
    readBytes := s.length
    done := s.any isBreak }

/-- What was read ends the loop: a line break, or as much as it asks for. -/
def stops (s : Text) : Bool := s.any isBreak || decide (MAX_BUF - 1 ≤ s.length)

/-- What has been read when the loop wants no more, or the pieces are used up. -/
def collected : Text → List Text → Text
  | s, [] => s
  | s, chunk :: chunks =>
    if stops s then s
    else collected (s ++ chunk.take (MAX_BUF - s.length)) chunks

theorem filled_wants : (filled chunks s).wants = !stops s := by
  have hsize : MAX_BUF = 4096 := rfl
  have hroom : (decide (0 ≤ (s.length : ℤ) ∧ (s.length : ℤ) < (MAX_BUF : ℤ) - 1)) =
      !decide (MAX_BUF - 1 ≤ s.length) := by
    rw [← decide_not, decide_eq_decide]
    omega
  rw [NdsctlReading.wants, stops, Bool.not_or]
  exact congrArg _ hroom

/-- INTERNAL: a piece is added to what was read.
SOURCE: ndsctl_thread.c:177-189 -/
theorem receive_filled (chunk : Text) :
    (filled chunks s).receive chunk = filled chunks (s ++ chunk.take (MAX_BUF - s.length)) := by
  have hlength : (terminated s).length = s.length := List.length_map _
  have hdrop : ∀ n : ℕ, (terminated s ++ List.replicate (MAX_BUF - s.length) '\x00').drop
      (s.length + n) = List.replicate (MAX_BUF - s.length - n) '\x00' := fun n => by
    rw [← List.drop_drop, ← hlength, List.drop_left, List.drop_replicate]
  simp only [filled, NdsctlReading.receive, Int.toNat_natCast, NdsctlReading.mk.injEq, true_and]
  refine ⟨?_, by simp, by simp⟩
  rw [List.take_left' hlength, hdrop, terminated, terminated, List.map_append, List.length_append,
    Nat.sub_sub]

/-- INTERNAL: no more is read than the buffer holds. -/
theorem collected_length (hs : s.length ≤ MAX_BUF) : (collected s chunks).length ≤ MAX_BUF := by
  induction chunks generalizing s with
  | nil => exact hs
  | cons chunk chunks ih =>
    rw [collected]
    split
    · exact hs
    · refine ih ?_
      have htake := List.length_take_le (MAX_BUF - s.length) chunk
      rw [List.length_append]
      omega

/-- INTERNAL: a loop that wants no more reads no more. -/
theorem collected_of_stops (h : stops s = true) (chunks : List Text) : collected s chunks = s := by
  cases chunks with
  | nil => rfl
  | cons chunk chunks => rw [collected, if_pos h]

/-- INTERNAL: what is read is the beginning of the stream, and all of it if the loop still
wants more. -/
theorem collected_prefix : collected s chunks <+: s ++ chunks.flatten ∧
    ((filled [] (collected s chunks)).wants = true → collected s chunks = s ++ chunks.flatten) := by
  induction chunks generalizing s with
  | nil => simp [collected]
  | cons chunk chunks ih =>
    cases hstop : stops s with
    | true =>
      rw [collected_of_stops hstop, filled_wants, hstop]
      exact ⟨List.prefix_append _ _, fun hwants => by cases hwants⟩
    | false =>
      rw [collected, if_neg (by simp [hstop])]
      rcases Nat.lt_or_ge (MAX_BUF - s.length) chunk.length with hcut | hall
      · -- the buffer is full
        have hfull : stops (s ++ chunk.take (MAX_BUF - s.length)) = true := by
          rw [stops, List.length_append, List.length_take_of_le hcut.le]
          refine Bool.or_eq_true_iff.mpr (Or.inr (decide_eq_true ?_))
          omega
        rw [collected_of_stops hfull, filled_wants, hfull, List.flatten_cons]
        refine ⟨?_, fun hwants => by cases hwants⟩
        exact (List.prefix_append_right_inj s).mpr
          ((List.take_prefix _ _).trans (List.prefix_append _ _))
      · rw [List.take_of_length_le hall, List.flatten_cons, ← List.append_assoc]
        exact ih

/-- INTERNAL: the loop ends where it ends after the pieces it wants. -/
theorem ends_collected : ∃ rest, (rest = [] ∨ (filled rest (collected s chunks)).wants = false) ∧
    ∀ r, Ends NdsctlReading.wants (ndsctlRead ending) (filled chunks s) r ↔
      Ends NdsctlReading.wants (ndsctlRead ending) (filled rest (collected s chunks)) r := by
  induction chunks generalizing s with
  | nil => exact ⟨[], Or.inl rfl, fun r => Iff.rfl⟩
  | cons chunk chunks ih =>
    cases hstop : stops s with
    | true =>
      rw [collected_of_stops hstop]
      exact ⟨chunk :: chunks, Or.inr (by rw [filled_wants, hstop]; rfl), fun r => Iff.rfl⟩
    | false =>
      obtain ⟨rest, hrest, hends⟩ := ih (s := s ++ chunk.take (MAX_BUF - s.length))
      rw [collected, if_neg (by simp [hstop])]
      refine ⟨rest, hrest, fun r => ?_⟩
      rw [ends_of_cond (by rw [filled_wants, hstop]; rfl), ← hends r]
      exact iff_of_eq (congrArg (Ends _ _ · r) (receive_filled chunk))

/-- INTERNAL: a read error is repeated until the count of bytes is -1; the bytes stay.
SOURCE: ndsctl_thread.c:176-189 -/
theorem ends_error (s : Text) : ∃ r, Ends NdsctlReading.wants (ndsctlRead .error) (filled [] s) r ∧
    r.request = (filled [] s).request := by
  obtain ⟨r, hends, ⟨-, hrequest⟩, -⟩ := @exists_ends _ NdsctlReading.wants
    (ndsctlRead .error) (filled [] s)
    (fun r => r.chunks = [] ∧ r.request = (filled [] s).request)
    (fun r => (r.readBytes + 1).toNat) ⟨rfl, rfl⟩ (by
      rintro r ⟨hchunks, hrequest⟩ hwants
      have hround : ndsctlRead .error r = { r with readBytes := r.readBytes - 1 } := by
        rw [ndsctlRead, hchunks]
      rw [hround]
      refine ⟨⟨hchunks, hrequest⟩, ?_⟩
      have hpos : 0 ≤ r.readBytes := by
        simp only [NdsctlReading.wants, Bool.and_eq_true, decide_eq_true_eq] at hwants
        exact hwants.2.1
      show (r.readBytes - 1 + 1).toNat < (r.readBytes + 1).toNat
      omega)
  exact ⟨r, hends, hrequest⟩

/-- INTERNAL: at the end of the file the loop goes round and round.
SOURCE: ndsctl_thread.c:176-189 -/
theorem not_ends_endOfFile (h : (filled [] s).wants = true) (r : NdsctlReading) :
    ¬Ends NdsctlReading.wants (ndsctlRead .endOfFile) (filled [] s) r := by
  refine not_ends (I := fun r => r = filled [] s) rfl (fun r hr => by rw [hr, h]) fun r hr => ?_
  rw [hr]
  show (filled [] s).receive [] = _
  rw [receive_filled, List.take_nil, List.append_nil]

/-- INTERNAL: the loop has enough when the stream has a line break or fills the buffer. -/
theorem stops_collected_iff : stops (collected [] chunks) = true ↔
    chunks.flatten.any isBreak = true ∨ MAX_BUF - 1 ≤ chunks.flatten.length := by
  have hpre : collected [] chunks <+: chunks.flatten := collected_prefix.1
  constructor
  · intro h
    rw [stops, Bool.or_eq_true, decide_eq_true_eq] at h
    rcases h with hbreak | hlong
    · obtain ⟨c, hc, hb⟩ := List.any_eq_true.mp hbreak
      exact Or.inl (List.any_eq_true.mpr ⟨c, hpre.subset hc, hb⟩)
    · exact Or.inr (hlong.trans hpre.length_le)
  · intro h
    cases hstop : stops (collected [] chunks) with
    | true => rfl
    | false =>
      have hall : collected [] chunks = chunks.flatten :=
        collected_prefix.2 (by rw [filled_wants, hstop]; rfl)
      rw [← hstop, stops, hall, Bool.or_eq_true, decide_eq_true_eq]
      exact h

/-- INTERNAL: **what the thread does**: it calls the function for what was collected, unless it
waits for more than the stream has.
SOURCE: ndsctl_thread.c:154-238 -/
theorem handler_iff (call : Option NdsctlCall) :
    (∃ fuel, threadNdsctlHandler beyond ending chunks fuel = some call) ↔
      call = ndsctlDispatch ((filled [] (collected [] chunks)).request ++ beyond) ∧
        (stops (collected [] chunks) = true ∨ ending = .error) := by
  have hinit : ndsctlReadingInit chunks = filled chunks [] := rfl
  obtain ⟨rest, hrest, hends⟩ := @ends_collected [] ending chunks
  have hcalls : (∃ fuel, threadNdsctlHandler beyond ending chunks fuel = some call) ↔
      ∃ r, Ends NdsctlReading.wants (ndsctlRead ending) (filled chunks []) r ∧
        ndsctlDispatch (r.request ++ beyond) = call := by
    simp only [threadNdsctlHandler, Option.map_eq_some_iff, hinit, Ends]
    constructor
    · rintro ⟨fuel, r, hrun, hcall⟩
      exact ⟨r, ⟨fuel, hrun⟩, hcall⟩
    · rintro ⟨r, ⟨fuel, hrun⟩, hcall⟩
      exact ⟨fuel, r, hrun, hcall⟩
  rw [hcalls]
  cases hstop : stops (collected [] chunks) with
  | true =>
    have hwants : (filled rest (collected [] chunks)).wants = false := by rw [filled_wants, hstop]; rfl
    simp only [hends, ends_of_not hwants, exists_eq_left, true_or, and_true]
    exact eq_comm
  | false =>
    have hwants : ∀ chunks', (filled chunks' (collected [] chunks)).wants = true := fun chunks' => by
      rw [filled_wants, hstop]; rfl
    obtain rfl := hrest.resolve_right (by simp [hwants])
    cases ending with
    | endOfFile =>
      simp only [hends, not_ends_endOfFile (hwants []), false_and, exists_false, reduceCtorEq, or_self,
        and_false]
    | error =>
      obtain ⟨r, hr, hrequest⟩ := ends_error (collected [] chunks)
      rw [← hrequest]
      constructor
      · rintro ⟨r', hr', rfl⟩
        rw [((hends r').mp hr').unique hr]
        exact ⟨rfl, Or.inr rfl⟩
      · rintro ⟨rfl, -⟩
        exact ⟨r, (hends r).mpr hr, rfl⟩

/-! ## The first line -/

/-- The bytes before the first line break. -/
def firstLine (stream : Text) : Option Text :=
  if stream.any isBreak then some (stream.takeWhile fun c => !isBreak c) else none

/-- What the read that brings the first line break brings behind it. -/
def restOfRead : List Text → Text
  | [] => []
  | chunk :: chunks =>
    if chunk.any isBreak then (chunk.dropWhile fun c => !isBreak c).tail else restOfRead chunks

/-- INTERNAL: a text with a line break is a line, the break and a rest. -/
theorem exists_line (h : s.any isBreak = true) :
    ∃ u b v, s = u ++ b :: v ∧ (∀ c ∈ u, isBreak c = false) ∧ isBreak b = true := by
  induction s with
  | nil => cases h
  | cons c s ih =>
    cases hc : isBreak c with
    | true => exact ⟨[], c, s, rfl, by simp, hc⟩
    | false =>
      rw [List.any_cons, hc, Bool.false_or] at h
      obtain ⟨u, b, v, rfl, hu, hb⟩ := ih h
      exact ⟨c :: u, b, v, rfl, List.forall_mem_cons.mpr ⟨hc, hu⟩, hb⟩

/-- INTERNAL: how such a text is cut. -/
theorem cut_line {u v : Text} {b : Char} (hu : ∀ c ∈ u, isBreak c = false) (hb : isBreak b = true) :
    (u ++ b :: v).any isBreak = true ∧
      ((u ++ b :: v).takeWhile fun c => !isBreak c) = u ∧
      ((u ++ b :: v).dropWhile fun c => !isBreak c) = b :: v := by
  have hpos : ∀ c ∈ u, (!isBreak c) = true := fun c hc => by simp [hu c hc]
  refine ⟨by simp [hb], ?_, ?_⟩
  · rw [List.takeWhile_append_of_pos hpos]
    simp [hb]
  · rw [List.dropWhile_append_of_pos hpos]
    simp [hb]

/-- INTERNAL: what is collected when the first line ends soon enough. -/
theorem collected_line (hs : ∀ c ∈ s, isBreak c = false)
    (hline : firstLine (s ++ chunks.flatten) = some line) (hsoon : line.length < MAX_BUF - 1) :
    ∃ b, isBreak b = true ∧ collected s chunks =
      line ++ b :: (restOfRead chunks).take (MAX_BUF - line.length - 1) := by
  induction chunks generalizing s with
  | nil =>
    have hnone : s.any isBreak = false := List.any_eq_false.mpr fun c hc => by simp [hs c hc]
    simp [firstLine, hnone] at hline
  | cons chunk chunks ih =>
    have hnot : ∀ u, line = s ++ u → stops s = false := by
      rintro u rfl
      have hnone : s.any isBreak = false := List.any_eq_false.mpr fun c hc => by simp [hs c hc]
      rw [List.length_append] at hsoon
      rw [stops, hnone, Bool.false_or, decide_eq_false_iff_not]
      omega
    cases hchunk : chunk.any isBreak with
    | true =>
      obtain ⟨u, b, v, rfl, hu, hb⟩ := exists_line hchunk
      have hsu : ∀ c ∈ s ++ u, isBreak c = false := List.forall_mem_append.mpr ⟨hs, hu⟩
      have hflat : s ++ ((u ++ b :: v) :: chunks).flatten = s ++ u ++ b :: (v ++ chunks.flatten) := by
        simp
      rw [hflat, firstLine, if_pos (cut_line hsu hb).1, (cut_line hsu hb).2.1,
        Option.some.injEq] at hline
      subst hline
      have htake : s ++ (u ++ b :: v).take (MAX_BUF - s.length) =
          s ++ u ++ b :: v.take (MAX_BUF - (s ++ u).length - 1) := by
        rw [List.length_append] at hsoon ⊢
        rw [List.take_append, List.take_of_length_le (by omega), List.append_assoc]
        obtain ⟨n, hn⟩ : ∃ n, MAX_BUF - s.length - u.length = n + 1 :=
          ⟨MAX_BUF - s.length - u.length - 1, by omega⟩
        rw [hn, List.take_succ_cons]
        congr 4
        omega
      rw [collected, if_neg (by simp [hnot u rfl]), htake, restOfRead, if_pos hchunk,
        (cut_line hu hb).2.2, List.tail_cons,
        collected_of_stops (by rw [stops, (cut_line hsu hb).1]; rfl)]
      exact ⟨b, hb, rfl⟩
    | false =>
      have hnone : ∀ c ∈ chunk, isBreak c = false := fun c hc => by
        simpa using List.any_eq_false.mp hchunk c hc
      rw [List.flatten_cons, ← List.append_assoc] at hline
      have hsc := List.forall_mem_append.mpr ⟨hs, hnone⟩
      have hbegin : ∃ u, line = s ++ (chunk ++ u) := by
        unfold firstLine at hline
        split at hline
        · refine ⟨chunks.flatten.takeWhile fun c => !isBreak c, ?_⟩
          rw [← Option.some.inj hline, List.takeWhile_append_of_pos fun c hc => by simp [hsc c hc],
            List.append_assoc]
        · cases hline
      obtain ⟨u, hu⟩ := hbegin
      have hfits : chunk.length ≤ MAX_BUF - s.length := by
        rw [hu, List.length_append, List.length_append] at hsoon
        omega
      rw [collected, if_neg (by simp [hnot _ hu]), List.take_of_length_le hfits, restOfRead,
        if_neg (by simp [hchunk])]
      exact ih hsc hline

theorem firstLine_eq_some (h : firstLine s = some line) : ∀ c ∈ line, isBreak c = false := by
  unfold firstLine at h
  split at h
  · intro c hc
    rw [← Option.some.inj h] at hc
    simpa using List.mem_takeWhile_imp hc
  · cases h

theorem firstLine_eq_none : firstLine s = none ↔ ∀ c ∈ s, isBreak c = false := by
  simp [firstLine]

/-- INTERNAL: a text without line breaks stands in the buffer as it is. -/
theorem terminated_of_not_break (h : ∀ c ∈ s, isBreak c = false) : terminated s = s := by
  rw [terminated]
  exact (List.map_congr_left fun c hc => by simp [h c hc]).trans (List.map_id s)

/-- INTERNAL: the buffer once a first line is in it. -/
theorem filled_line {w : Text} {b : Char} (hline : ∀ c ∈ line, isBreak c = false)
    (hb : isBreak b = true) :
    (filled [] (line ++ b :: w)).request ++ beyond = line ++ '\x00' :: (terminated w ++
      List.replicate (MAX_BUF - (line ++ b :: w).length) '\x00' ++ beyond) := by
  have hterminated : terminated (line ++ b :: w) = line ++ '\x00' :: terminated w := by
    have hline' := terminated_of_not_break hline
    simp only [terminated] at hline' ⊢
    rw [List.map_append, hline', List.map_cons, if_pos hb]
  simp only [filled, hterminated, List.append_assoc, List.cons_append]

/-- INTERNAL: nothing stands behind the NUL of a short line when the read brings nothing
behind the line break, or a character that ends a string. -/
theorem cString_after_iff {rest : Text} {room zeros : ℕ} (hroom : room ≠ 0)
    (hzeros : rest = [] → zeros ≠ 0) :
    cString (terminated (rest.take room) ++ List.replicate zeros '\x00' ++ beyond) = [] ↔
      ∀ c, rest.head? = some c → c = '\x00' ∨ isBreak c = true := by
  obtain ⟨room, rfl⟩ := Nat.exists_eq_succ_of_ne_zero hroom
  cases rest with
  | nil =>
    obtain ⟨zeros, rfl⟩ := Nat.exists_eq_succ_of_ne_zero (hzeros rfl)
    refine iff_of_true ?_ fun c hc => by cases hc
    simp [terminated, cString, List.replicate_succ]
  | cons d rest =>
    simp only [List.take_succ_cons, terminated, List.map_cons, List.cons_append, cString,
      List.takeWhile_cons, List.head?_cons, Option.some.injEq, forall_eq']
    by_cases hd : isBreak d = true
    · simp [hd]
    · simp [hd]

/-- The stream starts with the name of a command. -/
def NamesCommand (stream : Text) : Prop :=
  ∃ entry ∈ ndsctlTable, entry.1.isPrefixOf stream = true

/-- INTERNAL: a stream without a line break leads to a call if it starts with a name. -/
theorem dispatch_collected_none (hnone : ∀ c ∈ chunks.flatten, isBreak c = false) :
    ndsctlDispatch ((filled [] (collected [] chunks)).request ++ beyond) = none ↔
      ¬NamesCommand chunks.flatten := by
  have hpre : collected [] chunks <+: chunks.flatten := collected_prefix.1
  have hlength : (collected [] chunks).length ≤ MAX_BUF := collected_length (Nat.zero_le _)
  have hrequest : (filled [] (collected [] chunks)).request =
      collected [] chunks ++ List.replicate (MAX_BUF - (collected [] chunks).length) '\x00' :=
    congrArg (· ++ _) (terminated_of_not_break fun c hc => hnone c (hpre.subset hc))
  have hsame : ∀ entry ∈ ndsctlTable, entry.1.isPrefixOf
      ((filled [] (collected [] chunks)).request ++ beyond) = entry.1.isPrefixOf chunks.flatten := by
    intro entry hentry
    obtain ⟨hnul, hshort, -⟩ := ndsctlTable_names entry hentry
    rw [hrequest]
    cases hstop : stops (collected [] chunks) with
    | true =>
      -- the buffer is full, and the names are shorter
      have hfull : MAX_BUF - 1 ≤ (collected [] chunks).length := by
        have hany : (collected [] chunks).any isBreak = false :=
          List.any_eq_false.mpr fun c hc => by simp [hnone c (hpre.subset hc)]
        rw [stops, hany, Bool.false_or, decide_eq_true_eq] at hstop
        exact hstop
      have hname : entry.1.length ≤ (collected [] chunks).length := by
        have hsize : MAX_BUF - 1 = 4095 := rfl
        omega
      have hiff : ∀ {w : Text}, collected [] chunks <+: w →
          (entry.1 <+: w ↔ entry.1 <+: collected [] chunks) := fun hw =>
        ⟨fun h => List.prefix_of_prefix_length_le h hw hname, fun h => h.trans hw⟩
      rw [Bool.eq_iff_iff, List.isPrefixOf_iff_prefix, List.isPrefixOf_iff_prefix,
        List.append_assoc, hiff (List.prefix_append _ _), hiff hpre]
    | false =>
      have hall : collected [] chunks = chunks.flatten :=
        collected_prefix.2 (by rw [filled_wants, hstop]; rfl)
      have hroom : (collected [] chunks).length < MAX_BUF - 1 := by
        rw [stops, Bool.or_eq_false_iff, decide_eq_false_iff_not] at hstop
        omega
      obtain ⟨n, hn⟩ : ∃ n, MAX_BUF - (collected [] chunks).length = n + 1 :=
        ⟨MAX_BUF - (collected [] chunks).length - 1, by omega⟩
      rw [hn, List.replicate_succ, List.append_assoc, List.cons_append, isPrefixOf_line hnul, hall]
  rw [ndsctlDispatch, Option.map_eq_none_iff, List.find?_eq_none, NamesCommand]
  push Not
  exact forall₂_congr fun entry hentry => by rw [hsame entry hentry]

/-! ## What is claimed, and when it holds -/

/-- The loop ends; a first line that ends soon enough determines the call; without a line
break there is no call and the daemon stays as it is. -/
structure Framed (beyond : Text) (ending : StreamEnd) (chunks : List Text) : Prop where
  ends : ∃ fuel call, threadNdsctlHandler beyond ending chunks fuel = some call
  line : ∀ line, firstLine chunks.flatten = some line → line.length < MAX_BUF - 1 →
    ∀ fuel call, threadNdsctlHandler beyond ending chunks fuel = some call →
      call = ndsctlDispatch line
  nothing : firstLine chunks.flatten = none →
    ∀ fuel call, threadNdsctlHandler beyond ending chunks fuel = some call →
      call = none ∧ ∀ m w, serveCall m call w = pure w

/-- With a first line that ends soon enough: unless the line is only the name of a command
with an argument, or the read that brings its end brings nothing behind it, or a character
that ends a string.  Without a line break: the stream starts with no command, and is long
enough for the buffer or ends with an error. -/
def FramingHolds (ending : StreamEnd) (chunks : List Text) : Prop :=
  match firstLine chunks.flatten with
  | some line => line.length < MAX_BUF - 1 → TakesArgument line →
      ∀ c, (restOfRead chunks).head? = some c → c = '\x00' ∨ isBreak c = true
  | none => ¬NamesCommand chunks.flatten ∧
      (MAX_BUF - 1 ≤ chunks.flatten.length ∨ ending = .error)

/-- INTERNAL: the call after a first line that ends soon enough. -/
theorem handler_line_iff (hline : firstLine chunks.flatten = some line)
    (hsoon : line.length < MAX_BUF - 1) :
    (∃ fuel call, threadNdsctlHandler beyond ending chunks fuel = some call) ∧
      ((∀ fuel call, threadNdsctlHandler beyond ending chunks fuel = some call →
          call = ndsctlDispatch line) ↔
        (TakesArgument line → ∀ c, (restOfRead chunks).head? = some c →
          c = '\x00' ∨ isBreak c = true)) := by
  obtain ⟨b, hb, hcollected⟩ := collected_line (s := []) (by simp) hline hsoon
  have hstops : stops (collected [] chunks) = true := by
    rw [hcollected, stops, (cut_line (firstLine_eq_some hline) hb).1, Bool.true_or]
  have hcalls := fun call => (@handler_iff beyond ending chunks call).trans (and_iff_left (Or.inl hstops))
  refine ⟨exists_comm.mp ⟨_, (hcalls _).mpr rfl⟩, ?_⟩
  have hone : (∀ fuel call, threadNdsctlHandler beyond ending chunks fuel = some call →
      call = ndsctlDispatch line) ↔
      ndsctlDispatch ((filled [] (collected [] chunks)).request ++ beyond) = ndsctlDispatch line := by
    constructor
    · intro h
      obtain ⟨fuel, hfuel⟩ := (hcalls _).mpr rfl
      exact h fuel _ hfuel
    · rintro h fuel call hcall
      exact ((hcalls call).mp ⟨fuel, hcall⟩).trans h
  rw [hone, hcollected, filled_line (firstLine_eq_some hline) hb, dispatch_line_iff]
  refine imp_congr_right fun htakes => cString_after_iff (by omega) ?_
  rintro hrest
  rw [hrest, List.take_nil, List.length_append, List.length_singleton]
  omega

/-- **The framing of control requests** holds exactly in these cases.
SOURCE: ndsctl_thread.c:154-238 -/
theorem framed_iff (beyond : Text) (ending : StreamEnd) (chunks : List Text) :
    Framed beyond ending chunks ↔ FramingHolds ending chunks := by
  unfold FramingHolds
  cases hfirst : firstLine chunks.flatten with
  | some line =>
    dsimp only
    have hnothing : ∀ {P : Prop}, firstLine chunks.flatten = none → P := fun h => by
      rw [hfirst] at h
      cases h
    by_cases hsoon : line.length < MAX_BUF - 1
    · obtain ⟨hends, hiff⟩ := handler_line_iff hfirst hsoon
      rw [← hiff, forall_prop_of_true hsoon]
      constructor
      · intro h
        exact h.line line hfirst hsoon
      · intro h
        refine ⟨hends, fun line' hline' _ => ?_, hnothing⟩
        rwa [← Option.some.inj (hfirst.symm.trans hline')]
    · refine iff_of_true ⟨?_, fun line' hline' hsoon' => ?_, hnothing⟩ fun h => absurd h hsoon
      · have hstops : stops (collected [] chunks) = true := by
          refine stops_collected_iff.mpr (Or.inl ?_)
          rw [firstLine] at hfirst
          split at hfirst
          · next h => exact h
          · cases hfirst
        exact exists_comm.mp ⟨_, (handler_iff _).mpr ⟨rfl, Or.inl hstops⟩⟩
      · rw [← Option.some.inj (hfirst.symm.trans hline')] at hsoon'
        exact absurd hsoon' hsoon
  | none =>
    dsimp only
    have hnone := firstLine_eq_none.mp hfirst
    have hany : chunks.flatten.any isBreak = false :=
      List.any_eq_false.mpr fun c hc => by simp [hnone c hc]
    have hcalls := @handler_iff beyond ending chunks
    rw [stops_collected_iff, hany] at hcalls
    simp only [Bool.false_eq_true, false_or] at hcalls
    rw [← dispatch_collected_none hnone]
    constructor
    · rintro ⟨hends, -, hnothing⟩
      obtain ⟨fuel, call, hcall⟩ := hends
      obtain ⟨hdispatch, hend⟩ := (hcalls call).mp ⟨fuel, hcall⟩
      exact ⟨hdispatch.symm.trans (hnothing hfirst fuel call hcall).1, hend⟩
    · rintro ⟨hdispatch, hend⟩
      refine ⟨exists_comm.mp ⟨_, (hcalls _).mpr ⟨rfl, hend⟩⟩, fun line hline => ?_, ?_⟩
      · rw [hfirst] at hline
        cases hline
      · rintro - fuel call hcall
        have hnothing := ((hcalls call).mp ⟨fuel, hcall⟩).1.trans hdispatch
        exact ⟨hnothing, fun m w => by rw [hnothing]; rfl⟩

/-- A client that closes its connection before a line break keeps the thread busy
for ever, and what follows a line may become its argument.
SOURCE: ndsctl_thread.c:176-189, 200 -/
theorem not_framed : ¬Framed [] .endOfFile ["stat".toList] ∧
    ¬Framed [] .endOfFile ["block\nfoo\n".toList] := by
  constructor
  · rintro ⟨⟨fuel, call, hcall⟩, -, -⟩
    rcases ((handler_iff call).mp ⟨fuel, hcall⟩).2 with hstop | hend
    · exact absurd hstop (by decide)
    · cases hend
  · rintro ⟨-, hline, -⟩
    have hcall := hline "block".toList (by decide) (by decide) 2
      (some (.mac .block, some "foo".toList)) (by decide +kernel)
    exact absurd hcall (by decide)

end WifiCat.Analysis
