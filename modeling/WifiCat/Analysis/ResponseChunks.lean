import WifiCat.Model.HttpGetRequest

/-!
# The pieces in which an answer arrives

The buffer of `http_get_request` holds the request, is overwritten `read` by `read` and
ends with a NUL.  `Received` is what holds between two rounds of the loop, against all that
was read so far: the text, and behind it what the buffer held before.  The loop ends, and
what it read is what `readResponse` says (`readLoop_ends`); when the peer closes the
connection that is what fits of the stream, however the stream was cut (`readResponse_closed`).
-/

set_option autoImplicit false

namespace WifiCat.Analysis

open Scan

/-- What holds of the loop when a text was read into a buffer that held `base`. -/
structure Received (base text : Text) (s : ReadLoop) : Prop where
  buf : s.buf = ⟨text ++ base.drop text.length, false⟩
  total : s.totalbytes.toNat = text.length
  room : text.length < base.length

theorem Received.length {base text : Text} {s : ReadLoop} (h : Received base text s) :
    s.buf.bytes.length = base.length := by
  have hroom := h.room
  simp only [h.buf, List.length_append, List.length_drop]
  omega

/-- INTERNAL: what holds does not depend on how the loop goes on. -/
theorem Received.of_eq {base text : Text} {s s' : ReadLoop} (h : Received base text s)
    (hbuf : s'.buf = s.buf) (htotal : s'.totalbytes = s.totalbytes) : Received base text s' :=
  ⟨hbuf ▸ h.buf, htotal ▸ h.total, h.room⟩

variable {ending : Ending} {bufLen : BitVec 32} {n : ℕ} {base text chunk : Text}
  {chunks : List Text} {s : ReadLoop}

/-- INTERNAL: a positive `int` keeps its value as a `size_t`. -/
theorem signExtend_toNat (hn : bufLen.toInt = n) : (bufLen.signExtend 64).toNat = n := by
  have hmsb : bufLen.msb = false := by
    rw [BitVec.msb_eq_false_iff_two_mul_lt]
    have := BitVec.toInt_eq_toNat_cond bufLen
    split at this <;> omega
  rw [BitVec.signExtend_eq_setWidth_of_msb_false hmsb, BitVec.toNat_setWidth]
  have := BitVec.toInt_eq_toNat_of_msb hmsb
  omega

/-- INTERNAL: the size given to `read` is the room beside the final NUL.
SOURCE: centerserver.c:196 -/
theorem readSize_toNat (hn : bufLen.toInt = n) (hbase : base.length = n)
    (h : Received base text s) :
    (readSize bufLen s.totalbytes).toNat = n - 1 - text.length := by
  have htotal := h.total
  have hroom := h.room
  have hlen := signExtend_toNat hn
  have hlt : n < 2 ^ 31 := by
    have := BitVec.toInt_lt (x := bufLen)
    omega
  have hone : (1 : BitVec 64).toNat = 1 := rfl
  rw [readSize, BitVec.toNat_sub, BitVec.toNat_add, hlen, htotal, hone]
  omega

/-- INTERNAL: a round that finds nothing to read, or no room, ends the loop.
SOURCE: centerserver.c:202-204 -/
theorem readRound_done (harr : s.arriving = chunk :: chunks)
    (h : chunk = [] ∨ (readSize bufLen s.totalbytes).toNat = 0) :
    readRound ending bufLen s = { s with done := true } := by
  have hgot : chunk.take (readSize bufLen s.totalbytes).toNat = [] := by
    rw [List.take_eq_nil_iff]
    exact h.symm
  unfold readRound
  simp only [harr, hgot, if_true]

/-- INTERNAL: a round that reads adds what it read to the text.
SOURCE: centerserver.c:205-208 -/
theorem readRound_received (ending : Ending) (hn : bufLen.toInt = n) (hbase : base.length = n)
    (h : Received base text s) (harr : s.arriving = chunk :: chunks) {got : Text}
    (hgot : got = chunk.take (n - 1 - text.length)) (hne : got ≠ []) :
    Received base (text ++ got) (readRound ending bufLen s) ∧
      (readRound ending bufLen s).arriving =
        (if chunk.length ≤ n - 1 - text.length then chunks
          else chunk.drop (n - 1 - text.length) :: chunks) ∧
      (readRound ending bufLen s).done = s.done ∧
      (readRound ending bufLen s).returned = s.returned := by
  have hsize := readSize_toNat hn hbase h
  have hroom := h.room
  have hfits : text.length + got.length < base.length := by
    have := List.length_take_le (n - 1 - text.length) chunk
    rw [hgot]
    omega
  have hround : readRound ending bufLen s =
      { s with
        buf := s.buf.write s.totalbytes.toNat got
        totalbytes := s.totalbytes + BitVec.ofNat 64 got.length
        arriving := if chunk.length ≤ n - 1 - text.length then chunks
          else chunk.drop (n - 1 - text.length) :: chunks } := by
    unfold readRound
    simp only [harr, hsize, ← hgot, if_neg hne]
  rw [hround]
  refine ⟨⟨?_, ?_, ?_⟩, rfl, rfl, rfl⟩
  · show s.buf.write s.totalbytes.toNat got = _
    rw [h.buf, h.total, Buffer.write_append (by omega)]
  · show (s.totalbytes + BitVec.ofNat 64 got.length).toNat = _
    have hlt : base.length < 2 ^ 31 := by
      have := BitVec.toInt_lt (x := bufLen)
      omega
    rw [BitVec.toNat_add, h.total, BitVec.toNat_ofNat, List.length_append]
    omega
  · rw [List.length_append]
    exact hfits

/-- INTERNAL: a state whose loop is over is where the loop ends, after one more round. -/
theorem ends_of_round {s' : ReadLoop} (hgoes : s.goesOn = true)
    (hround : readRound ending bufLen s = s') (hstop : s'.goesOn = false) :
    WhileLoop.Ends ReadLoop.goesOn (readRound ending bufLen) s s' := by
  rw [WhileLoop.ends_of_cond hgoes, hround]
  exact (WhileLoop.ends_of_not hstop).mpr rfl

/-- How the loop ended: with the text it read, or with the value of an error. -/
def ReadOutcome (answer : Option Text) (s : ReadLoop) (more : Text) : Prop :=
  (s.returned = none ∧ answer = some more) ∨ (s.returned = some (-1) ∧ answer = none)

/-- INTERNAL: **the loop ends**, inside the buffer, and it read what `readResponse` says.
SOURCE: centerserver.c:182-217 -/
theorem readLoop_ends (ending : Ending) (hn : bufLen.toInt = n) (hbase : base.length = n)
    (h : Received base text s) (hgoes : s.goesOn = true) (harr : s.arriving = chunks) :
    ∃ s' more, WhileLoop.Ends ReadLoop.goesOn (readRound ending bufLen) s s' ∧
      Received base (text ++ more) s' ∧
      ReadOutcome (readResponse ending (n - 1 - text.length) chunks) s' more := by
  have hkeeps : Received base (text ++ []) s := by rwa [List.append_nil]
  have hreturned : s.returned = none := by
    simp only [ReadLoop.goesOn, Bool.and_eq_true, Option.isNone_iff_eq_none] at hgoes
    exact hgoes.2
  -- the pieces that are still to arrive, each of which is read in one round or cut
  induction chunks generalizing text s with
  | nil =>
    by_cases hclosed : ending = .closed
    · refine ⟨{ s with done := true }, [], ends_of_round hgoes ?_ rfl, ?_, ?_⟩
      · simp only [readRound, harr, if_pos hclosed]
      · exact hkeeps.of_eq rfl rfl
      · exact .inl ⟨hreturned, by rw [readResponse, if_pos hclosed]⟩
    · refine ⟨{ s with returned := some (-1) }, [], ends_of_round hgoes ?_ ?_, ?_, ?_⟩
      · simp only [readRound, harr, if_neg hclosed]
      · exact Bool.and_false _
      · exact hkeeps.of_eq rfl rfl
      · exact .inr ⟨rfl, by rw [readResponse, if_neg hclosed]⟩
  | cons chunk chunks ih =>
    have hsize := readSize_toNat hn hbase h
    by_cases hstop : chunk = [] ∨ n - 1 - text.length = 0
    · refine ⟨{ s with done := true }, [], ends_of_round hgoes ?_ rfl, ?_, ?_⟩
      · exact readRound_done harr (by rwa [hsize])
      · exact hkeeps.of_eq rfl rfl
      · exact .inl ⟨hreturned, by rw [readResponse, if_pos hstop]⟩
    · have hne : chunk.take (n - 1 - text.length) ≠ [] := by
        rw [ne_eq, List.take_eq_nil_iff]
        exact fun hor => hstop hor.symm
      obtain ⟨hreceived, harrives, hdone, hsame⟩ :=
        readRound_received ending hn hbase h harr rfl hne
      have hgoes' : (readRound ending bufLen s).goesOn = true := by
        rw [ReadLoop.goesOn, hdone, hsame]
        exact hgoes
      rw [hreturned] at hsame
      rw [readResponse, if_neg hstop]
      by_cases hcut : n - 1 - text.length < chunk.length
      · -- the piece fills the buffer, and the next round finds no room
        rw [if_neg (by omega)] at harrives
        rw [if_pos hcut]
        set s' := readRound ending bufLen s with hs'
        have hfull : (readSize bufLen s'.totalbytes).toNat = 0 := by
          rw [readSize_toNat hn hbase hreceived, List.length_append, List.length_take]
          omega
        refine ⟨{ s' with done := true }, _, ?_, hreceived.of_eq rfl rfl,
          .inl ⟨hsame, rfl⟩⟩
        rw [WhileLoop.ends_of_cond hgoes]
        exact ends_of_round hgoes' (readRound_done harrives (.inr hfull)) rfl
      · rw [if_pos (by omega)] at harrives
        rw [if_neg hcut]
        rw [List.take_of_length_le (by omega)] at hreceived
        have hkeeps' : Received base (text ++ chunk ++ []) (readRound ending bufLen s) := by
          rwa [List.append_nil]
        obtain ⟨s', more, hends, hmore, hout⟩ := ih hreceived hgoes' harrives hkeeps' hsame
        rw [List.append_assoc] at hmore
        rw [List.length_append, ← Nat.sub_sub] at hout
        refine ⟨s', chunk ++ more, (WhileLoop.ends_of_cond hgoes).mpr hends, hmore, ?_⟩
        rcases hout with ⟨hnone, hread⟩ | ⟨herror, hread⟩
        · exact .inl ⟨hnone, by rw [hread, Option.map_some]⟩
        · exact .inr ⟨herror, by rw [hread, Option.map_none]⟩

/-- INTERNAL: when the peer closes the connection, what is read is what there is room for of
the stream, however it was cut into pieces.
SOURCE: centerserver.c:182-217 -/
theorem readResponse_closed {chunks : List Text} {room : ℕ}
    (hne : ∀ chunk ∈ chunks, chunk ≠ []) :
    readResponse .closed room chunks = some (chunks.flatten.take room) := by
  induction chunks generalizing room with
  | nil => rw [readResponse, if_pos rfl, List.flatten_nil, List.take_nil]
  | cons chunk chunks ih =>
    have hchunk := hne chunk List.mem_cons_self
    rw [readResponse, List.flatten_cons, List.take_append]
    rcases Nat.eq_zero_or_pos room with rfl | hroom
    · rw [if_pos (.inr rfl), Nat.zero_sub, List.take_zero, List.take_zero, List.append_nil]
    · have hgo : ¬(chunk = [] ∨ room = 0) := by
        rintro (h | h)
        · exact hchunk h
        · omega
      rw [if_neg hgo]
      by_cases hcut : room < chunk.length
      · rw [if_pos hcut, Nat.sub_eq_zero_of_le hcut.le, List.take_zero, List.append_nil]
      · have hwhole : chunk.take room = chunk := List.take_of_length_le (by omega)
        rw [if_neg hcut, ih fun c hc => hne c (List.mem_cons_of_mem _ hc), Option.map_some,
          hwhole]

/-- INTERNAL: a request holds no NUL. -/
theorem not_mem_requestText (ip path query version : Text) :
    '\x00' ∉ requestText ip path query version := by
  unfold requestText
  repeat' apply List.not_mem_append
  all_goals first
    | exact not_mem_cString _
    | decide +kernel

/-- INTERNAL: the buffer when the request is sent: the request, as much of it as fits.
SOURCE: centerserver.c:167-178 -/
theorem requestBuffer_holds (ip path query version : Text) {buf : Buffer Char}
    (hn : bufLen.toInt = n) (hpos : 1 < n) (hbuf : buf.bytes.length = n)
    (hinside : buf.outside = false) :
    Buffer.Holds '\x00' n ((requestText ip path query version).take (n - 2))
      (requestBuffer ip path query version bufLen buf) := by
  have hone : (bufLen - 1).toInt = ((n - 1 : ℕ) : ℤ) := by
    have hlt := BitVec.toInt_lt (x := bufLen)
    rw [BitVec.toInt_sub, hn, show (1 : BitVec 32).toInt = 1 from rfl, Int.bmod_eq_of_le] <;> omega
  have hmemset : buf.write 0 (List.replicate (bufLen.signExtend 64).toNat '\x00') =
      ⟨List.replicate n '\x00', false⟩ := by
    rw [signExtend_toNat hn, Buffer.write_eq (by simp only [List.length_replicate]; omega),
      List.length_replicate, List.drop_eq_nil_of_le (by omega), hinside, List.take_zero,
      List.nil_append, List.append_nil]
  have hholds := @Buffer.holds_print _ '\x00' ⟨List.replicate n '\x00', false⟩ []
    (requestText ip path query version) (n - 1) rfl ⟨_, rfl⟩ List.not_mem_nil
    (not_mem_requestText ip path query version) (by omega)
    (by simp only [List.length_nil, List.length_replicate]; omega)
  rw [requestBuffer, hmemset, signExtend_toNat hone]
  rw [List.length_replicate, List.nil_append, Nat.sub_sub] at hholds
  exact hholds

/-- INTERNAL: what a call leaves when the loop has read a text without an error.
SOURCE: centerserver.c:219-223 -/
theorem answer_received (sent : Text) (h : Received base text s) (hnone : s.returned = none) :
    s.answer sent =
      ⟨1, ⟨text ++ '\x00' :: base.drop (text.length + 1), false⟩, some sent⟩ := by
  have hfits : text.length + ['\x00'].length ≤ base.length := h.room
  simp only [ReadLoop.answer, hnone, h.buf, h.total, Buffer.write_append hfits, List.append_assoc,
    List.singleton_append, List.length_append, List.length_singleton]

theorem length_answered (h : text.length < base.length) :
    (text ++ '\x00' :: base.drop (text.length + 1)).length = base.length := by
  simp only [List.length_append, List.length_cons, List.length_drop]
  omega

/-- INTERNAL: **what a call leaves, on any network**: it returns, the buffer kept its length
and nothing was stored outside it, and the bytes read stand before a NUL, over the request.
SOURCE: centerserver.c:153-224 -/
theorem httpGetRequestInto_received (net : Network) (ip path query version : Text)
    {buf : Buffer Char} (hn : bufLen.toInt = n) (hpos : 1 < n) (hbuf : buf.bytes.length = n)
    (hinside : buf.outside = false) :
    ∃ fuel r,
      (∀ more, httpGetRequestInto (fuel + more) net ip path query version buf bufLen = some r) ∧
      r.buf.outside = false ∧ r.buf.bytes.length = n ∧
      r.sent = (if connectAuthServer net.connect then
        some ((requestText ip path query version).take (n - 2)) else none) ∧
      ((httpGetRequest net ip path query version n).received = none → r.value = -1) ∧
      ∀ text, (httpGetRequest net ip path query version n).received = some text →
        r.value = 1 ∧ r.buf.bytes = text ++ '\x00' ::
          (requestBuffer ip path query version bufLen buf).bytes.drop (text.length + 1) := by
  by_cases hconn : connectAuthServer net.connect = true
  · have hholds := requestBuffer_holds ip path query version hn hpos hbuf hinside
    set request := requestBuffer ip path query version bufLen buf with hrequest
    have hstart : Received request.bytes []
        { buf := request, arriving := net.chunks } := by
      refine ⟨?_, rfl, by rw [hholds.length]; exact Nat.zero_lt_of_lt hpos⟩
      rw [List.nil_append, List.length_nil, List.drop_zero, ← hholds.inside]
    obtain ⟨s, text, ⟨fuel, hrun⟩, hs, hout⟩ :=
      readLoop_ends net.ending hn hholds.length hstart rfl rfl
    rw [List.nil_append] at hs
    rw [List.length_nil, Nat.sub_zero] at hout
    have hreturns : ∀ more, httpGetRequestInto (fuel + more) net ip path query version buf bufLen =
        some (ReadLoop.answer (request.string '\x00') s) := by
      intro more
      rw [httpGetRequestInto, if_pos hconn, ← hrequest]
      simp only [WhileLoop.run_mono hrun more, Option.map_some]
    have hreceived : (httpGetRequest net ip path query version n).received =
        readResponse net.ending (n - 1) net.chunks := by
      rw [httpGetRequest, if_pos hconn]
    refine ⟨fuel, _, hreturns, ?_⟩
    rw [hreceived, if_pos hconn, ← hholds.string_eq]
    rcases hout with ⟨hnone, hread⟩ | ⟨herror, hread⟩
    · rw [answer_received _ hs hnone, hread]
      refine ⟨rfl, (length_answered hs.room).trans hholds.length, rfl, ?_, ?_⟩
      · rintro ⟨⟩
      · rintro text' ⟨⟩
        exact ⟨rfl, rfl⟩
    · have hanswer : s.answer (request.string '\x00') =
          ⟨-1, s.buf, some (request.string '\x00')⟩ := by
        simp only [ReadLoop.answer, herror]
      rw [hanswer, hread]
      refine ⟨by rw [hs.buf], hs.length.trans hholds.length, rfl, fun _ => rfl, ?_⟩
      rintro text' ⟨⟩
  · have hreturns : ∀ more, httpGetRequestInto (0 + more) net ip path query version buf bufLen =
        some ⟨-1, buf, none⟩ := fun _ => if_neg hconn
    refine ⟨0, _, hreturns, hinside, hbuf, (if_neg hconn).symm, fun _ => rfl, ?_⟩
    intro text htext
    rw [httpGetRequest, if_neg hconn] at htext
    cases htext

/-- The modelled request is the text that is formatted, cut to the buffer.
SOURCE: centerserver.c:168-178 -/
theorem httpRequest_eq_requestText {ip path query version : Text} (hip : '\x00' ∉ ip)
    (hpath : '\x00' ∉ path) (hquery : '\x00' ∉ query) (hversion : '\x00' ∉ version) :
    httpRequest ip path query version n = (requestText ip path query version).take (n - 2) := by
  unfold httpRequest requestText
  simp only [cString_of_not_mem hip, cString_of_not_mem hpath, cString_of_not_mem hquery,
    cString_of_not_mem hversion]

/-- **A response does not depend on how it is cut into pieces**: when the peer closes the
connection behind a stream of bytes that arrives in nonempty pieces, the call returns 1, and
the buffer, which nothing was stored outside of, holds what there is room for of the stream,
a NUL, and behind it what depends on the request and that length alone.
SOURCE: centerserver.c:153-224 -/
theorem response_any_pieces (net : Network) (ip path query version : Text)
    {bufLen : BitVec 32} {n : ℕ} {buf : Buffer Char}
    (hn : bufLen.toInt = n) (hpos : 1 < n) (hbuf : buf.bytes.length = n)
    (hinside : buf.outside = false) (hconn : connectAuthServer net.connect = true)
    (hclosed : net.ending = .closed) (hpieces : ∀ chunk ∈ net.chunks, chunk ≠ []) :
    ∃ fuel r,
      (∀ more, httpGetRequestInto (fuel + more) net ip path query version buf bufLen = some r) ∧
      r.value = 1 ∧ r.buf.outside = false ∧ r.buf.bytes.length = n ∧
      r.buf.bytes =
        net.chunks.flatten.take (min net.chunks.flatten.length (n - 1)) ++ '\x00' ::
          (requestBuffer ip path query version bufLen buf).bytes.drop
            (min net.chunks.flatten.length (n - 1) + 1) ∧
      cString r.buf.bytes =
        cString (net.chunks.flatten.take (min net.chunks.flatten.length (n - 1))) := by
  obtain ⟨fuel, r, hreturns, hsafe, hlen, -, -, htext⟩ :=
    httpGetRequestInto_received net ip path query version hn hpos hbuf hinside
  set stream := net.chunks.flatten with hstream
  have hreceived : (httpGetRequest net ip path query version n).received =
      some (stream.take (n - 1)) := by
    rw [httpGetRequest, if_pos hconn, hclosed]
    exact readResponse_closed hpieces
  have htake : stream.take (min stream.length (n - 1)) = stream.take (n - 1) := by
    rw [Nat.min_comm, ← List.take_take, List.take_length]
  obtain ⟨hvalue, hbytes⟩ := htext _ hreceived
  rw [List.length_take, Nat.min_comm] at hbytes
  refine ⟨fuel, r, hreturns, hvalue, hsafe, hlen, by rw [htake, hbytes], ?_⟩
  rw [htake, hbytes, cString_append_nul]

/-- An answer of four bytes in two pieces, into a buffer of four bytes. -/
theorem response_any_pieces_cut :
    ∃ fuel r,
      httpGetRequestInto fuel ⟨fun _ _ => none, fun _ => true, ["HT".toList, "TP".toList], .closed⟩
        "10.0.0.1".toList "/".toList "?uid=1".toList VERSION ⟨List.replicate 4 'x', false⟩ 4 =
          some r ∧
        r.value = 1 ∧ cString r.buf.bytes = "HTT".toList := by
  obtain ⟨fuel, r, hreturns, hvalue, -, -, -, htext⟩ :=
    response_any_pieces ⟨fun _ _ => none, fun _ => true, ["HT".toList, "TP".toList], .closed⟩
      "10.0.0.1".toList "/".toList "?uid=1".toList VERSION
      (show (4 : BitVec 32).toInt = (4 : ℕ) from rfl) (by decide)
      (show (⟨List.replicate 4 'x', false⟩ : Buffer Char).bytes.length = 4 from rfl) rfl
      (by decide) rfl (by decide)
  exact ⟨fuel, r, hreturns 0, hvalue, htext.trans (by decide)⟩

end WifiCat.Analysis
