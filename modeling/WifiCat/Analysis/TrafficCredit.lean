import WifiCat.Analysis.WorldInvariant
import WifiCat.Library.Meter
import WifiCat.Model.CounterListing

/-!
# Whose traffic the counters show

The rules that count a client's traffic are written for its IP address, its MAC address
and its slot; the counters are credited to the first client with the IP address that the
rule's line shows.  `traffic_credited_iff` says for which client lists and which counts
that is the client whose rule it is.
-/

set_option autoImplicit false

namespace WifiCat.Analysis

open CommandProgram Netfilter Scan

/-! ## Reading a listing -/

/-- The line that is read of a rule, where `address` is the column the IP address is taken
from. -/
def lineOf (address : IptablesRule → Text) (row : ListedRule) : Option CounterLine :=
  (set 15 isIpChar (address row.rule)).map fun read =>
    { counter := row.bytes, target := targetColumn row.rule, ip := read.1 }

/-- INTERNAL: skipping words skips columns. -/
theorem skipWords_columns {columns : List (ℕ × Text)} (h : ∀ c ∈ columns, IsWord c.2) (s : Text) :
    Directive.skipWords columns.length (' ' :: (printColumns columns ++ s)) =
      .ok ((), ' ' :: s) := by
  induction columns with
  | nil => rfl
  | cons c columns ih =>
    have hword : Directive.skipWord (' ' :: (printColumns (c :: columns) ++ s)) =
        .ok ((), ' ' :: (printColumns columns ++ s)) := by
      have hcolumn := word_column (c.1 + 1) (h c (by simp)) (printColumns columns ++ s)
      rw [List.replicate_succ] at hcolumn
      simp only [List.cons_append, List.append_assoc] at hcolumn
      simp only [Directive.skipWord, printColumns, List.append_assoc, List.cons_append]
      rw [Directive.bind_ok hcolumn]
      rfl
    rw [List.length_cons, Directive.skipWords, Directive.bind_ok hword]
    exact ih fun d hd => h d (List.mem_cons_of_mem _ hd)

/-- INTERNAL: an entry is read from the columns of a line, wherever the reading stops.
SOURCE: fw_iptables.c:906-908, 945-947 -/
theorem counterEntry_columns {pkts target address : Text} {p₁ p₂ p₃ pad : ℕ} {bytes : BitVec 64}
    {mid last : List (ℕ × Text)} {rest : Text} (hpkts : IsWord pkts) (htarget : IsWord target)
    (hmid : ∀ c ∈ mid, IsWord c.2) (haddress : IsWord address) (hlast : ∀ c ∈ last, IsWord c.2)
    (hrest : '\n' ∉ rest) (more : Text) :
    (match counterEntry mid.length (printColumns ([(p₁, pkts),
          (p₂, Nat.toDigits 10 bytes.toNat), (p₃, target)] ++ mid ++ (pad, address) :: last) ++
          rest ++ '\n' :: more) with
      | .ok (line, s) => (some line, restOfLine s)
      | .error s => (none, restOfLine s)) =
    ((set 15 isIpChar address).map fun read =>
      { counter := bytes, target := target, ip := read.1 }, more) := by
  -- what is left of the stream behind each column
  generalize hs₄ : printColumns last ++ rest ++ '\n' :: more = s₄
  generalize hs₃ : printColumns mid ++ (List.replicate pad ' ' ++ address ++ ' ' :: s₄) = s₃
  have hstream : printColumns ([(p₁, pkts), (p₂, Nat.toDigits 10 bytes.toNat), (p₃, target)] ++
      mid ++ (pad, address) :: last) ++ rest ++ '\n' :: more =
      List.replicate p₁ ' ' ++ pkts ++ ' ' :: (List.replicate p₂ ' ' ++
        Nat.toDigits 10 bytes.toNat ++ ' ' :: (List.replicate p₃ ' ' ++ target ++ ' ' :: s₃)) := by
    rw [← hs₃, ← hs₄, printColumns_append, printColumns_append]
    simp [printColumns]
  have hend : ∀ u : Text, '\n' ∉ u → restOfLine (u ++ ' ' :: s₄) = more := by
    intro u hu
    rw [← hs₄, ← List.cons_append, ← List.append_assoc]
    refine restOfLine_append ?_ more
    simp [hu, newline_not_mem_printColumns hlast, hrest]
  have hfirst : Directive.skipWord (List.replicate p₁ ' ' ++ pkts ++ ' ' ::
      (List.replicate p₂ ' ' ++ Nat.toDigits 10 bytes.toNat ++ ' ' ::
        (List.replicate p₃ ' ' ++ target ++ ' ' :: s₃))) = .ok ((), ' ' ::
      (List.replicate p₂ ' ' ++ Nat.toDigits 10 bytes.toNat ++ ' ' ::
        (List.replicate p₃ ' ' ++ target ++ ' ' :: s₃))) := by
    rw [Directive.skipWord, Directive.bind_ok (word_column p₁ hpkts _)]
    rfl
  have hskip : Directive.skipWords mid.length (' ' :: s₃) =
      .ok ((), ' ' :: (List.replicate pad ' ' ++ address ++ ' ' :: s₄)) := by
    rw [← hs₃]
    exact skipWords_columns hmid _
  have hblanks : Directive.blanks (' ' :: (List.replicate pad ' ' ++ address ++ ' ' :: s₄)) =
      .ok ((), address ++ ' ' :: s₄) := by
    have hdrop : (' ' :: (List.replicate pad ' ' ++ address ++ ' ' :: s₄)).dropWhile isSpace =
        address ++ ' ' :: s₄ := dropWhile_isSpace_pad (pad + 1) haddress (' ' :: s₄)
    rw [Directive.blanks, hdrop]
  have hcount : Directive.unsigned64 (' ' :: (List.replicate p₂ ' ' ++
      Nat.toDigits 10 bytes.toNat ++ ' ' :: (List.replicate p₃ ' ' ++ target ++ ' ' :: s₃))) =
      .ok (bytes, ' ' :: (List.replicate p₃ ' ' ++ target ++ ' ' :: s₃)) :=
    unsigned64_column (p₂ + 1) bytes _
  have hword : Directive.word (' ' :: (List.replicate p₃ ' ' ++ target ++ ' ' :: s₃)) =
      .ok (target, ' ' :: s₃) := word_column (p₃ + 1) htarget _
  rw [hstream, counterEntry, Directive.bind_ok hfirst, Directive.bind_ok hcount,
    Directive.bind_ok hword, Directive.bind_ok hskip, Directive.bind_ok hblanks]
  have hnewline : '\n' ∉ address := fun hmem => by simpa [isSpace] using haddress.2 _ hmem
  have hset := set_column (n := 15) (p := isIpChar) rfl address s₄
  cases hread : set 15 isIpChar address with
  | none =>
    rw [hread] at hset
    simp only [bind, StateT.bind, Directive.bounded, hset, Except.bind, Option.map_none]
    rw [hend address hnewline]
  | some read =>
    rw [hread] at hset
    have hsuffix : '\n' ∉ read.2 := fun hmem => hnewline (by
      rw [(set_eq_some hread).1]
      exact List.mem_append_right _ hmem)
    simp only [bind, StateT.bind, Directive.bounded, hset, Except.bind, Option.map_some]
    change (some _, restOfLine (read.2 ++ ' ' :: s₄)) = _
    rw [hend read.2 hsuffix]

/-- Skipping that many words after the target leads to that address. -/
def ReadsAddress (skipped : ℕ) (address : IptablesRule → Text) : Prop :=
  ∀ row line, Shows row line → ∀ more,
    (match counterEntry skipped (line ++ '\n' :: more) with
      | .ok (line, s) => (some line, restOfLine s)
      | .error s => (none, restOfLine s)) = (lineOf address row, more)

/-- INTERNAL: four words further stands the source address.
SOURCE: fw_iptables.c:906 -/
theorem readsAddress_source : ReadsAddress 4 sourceColumn := by
  rintro row _ ⟨pad, pkts, prot, opt, ifIn, ifOut, rest, hwords, hrest⟩ more
  simp only [ListedRule.columns, List.forall_mem_cons] at hwords
  obtain ⟨hpkts, -, htarget, hprot, hopt, hin, hout, hsource, hdestination, -⟩ := hwords
  exact @counterEntry_columns _ _ _ _ _ _ _ _
    [(pad 3, prot), (pad 4, opt), (pad 5, ifIn), (pad 6, ifOut)]
    [(pad 8, destinationColumn row.rule)] _ hpkts htarget
    (by simp [hprot, hopt, hin, hout]) hsource (by simp [hdestination]) hrest more

/-- INTERNAL: five words further stands the destination address.
SOURCE: fw_iptables.c:945 -/
theorem readsAddress_destination : ReadsAddress 5 destinationColumn := by
  rintro row _ ⟨pad, pkts, prot, opt, ifIn, ifOut, rest, hwords, hrest⟩ more
  simp only [ListedRule.columns, List.forall_mem_cons] at hwords
  obtain ⟨hpkts, -, htarget, hprot, hopt, hin, hout, hsource, hdestination, -⟩ := hwords
  exact @counterEntry_columns _ _ _ _ _ _ _ _
    [(pad 3, prot), (pad 4, opt), (pad 5, ifIn), (pad 6, ifOut), (pad 7, sourceColumn row.rule)] []
    _ hpkts htarget (by simp [hprot, hopt, hin, hout, hsource]) hdestination (by simp) hrest more

/-- INTERNAL: one round of the loop for each line of the listing.
SOURCE: fw_iptables.c:905-908, 944-947 -/
theorem counterLoop_lines {skipped : ℕ} {address : IptablesRule → Text}
    (hread : ReadsAddress skipped address) {rows : List ListedRule} {lines : List Text}
    (hrows : List.Forall₂ Shows rows lines) {n : ℕ} (hn : lines.length ≤ n) :
    counterLoop skipped n (lines.flatMap (· ++ ['\n'])) =
      rows.filterMap (lineOf address) := by
  induction hrows generalizing n with
  | nil => cases n <;> rfl
  | @cons row line rows lines hshow hrows ih =>
    obtain ⟨n, rfl⟩ : ∃ m, n = m + 1 := ⟨n - 1, by simp only [List.length_cons] at hn; omega⟩
    have hround := hread row line hshow (lines.flatMap (· ++ ['\n']))
    have hrest := ih (n := n) (by simpa using hn)
    have htext : (line :: lines).flatMap (· ++ ['\n']) =
        line ++ '\n' :: lines.flatMap (· ++ ['\n']) := by simp
    obtain ⟨c, s, hs⟩ := List.exists_cons_of_ne_nil
      (show line ++ '\n' :: lines.flatMap (· ++ ['\n']) ≠ [] by simp)
    rw [htext, List.filterMap_cons, ← hrest]
    rw [hs] at hround ⊢
    simp only [counterLoop]
    cases hentry : counterEntry skipped (c :: s) with
    | ok r =>
      rw [hentry] at hround
      obtain ⟨hline, hmore⟩ := Prod.mk.inj hround
      simp only [← hline, hmore]
    | error s' =>
      rw [hentry] at hround
      obtain ⟨hline, hmore⟩ := Prod.mk.inj hround
      simp only [← hline, hmore]

/-- INTERNAL: **what is read of a listing** are the lines of its rules, one each unless the
address does not start with digits or dots.
SOURCE: fw_iptables.c:901-908, 940-947 -/
theorem counterLines_of_lists {skipped : ℕ} {address : IptablesRule → Text}
    (hread : ReadsAddress skipped address) {output : Text} {rows : List ListedRule}
    (hlists : ListsRules output rows) :
    counterLines skipped output = rows.filterMap (lineOf address) := by
  obtain ⟨heading₁, heading₂, lines, h₁, h₂, hrows, rfl⟩ := hlists
  rw [counterLines, restOfLine_append h₁, restOfLine_append h₂]
  refine counterLoop_lines hread hrows ?_
  have hlines : lines.length ≤ (lines.map fun line => (line ++ ['\n']).length).sum := by
    have hsum := List.length_le_sum_of_one_le (lines.map fun line => (line ++ ['\n']).length)
      (by simp)
    rwa [List.length_map] at hsum
  rw [List.length_append, List.length_cons, List.length_append, List.length_cons,
    List.length_flatMap]
  omega

/-! ## Crediting a line -/

/-- A direction of traffic: which rules count it, and where the counters show it. -/
structure Account where
  target : Text
  address : IptablesRule → Text
  shows : Counters → BitVec 64
  history : Counters → BitVec 64
  put : ℤ → BitVec 64 → Counters → Counters
  shows_put : ∀ now v c, shows (put now v c) = v
  history_put : ∀ now v c, history (put now v c) = history c

/-- SOURCE: fw_iptables.c:906-926 -/
def outgoingAccount : Account where
  target := "MARK".toList
  address := sourceColumn
  shows := Counters.outgoing
  history := Counters.outgoingHistory
  put now v c := { c with outgoing := v, lastUpdated := now }
  shows_put _ _ _ := rfl
  history_put _ _ _ := rfl

/-- SOURCE: fw_iptables.c:945-964 -/
def incomingAccount : Account where
  target := "ACCEPT".toList
  address := destinationColumn
  shows := Counters.incoming
  history := Counters.incomingHistory
  put _ v c := { c with incoming := v }
  shows_put _ _ _ := rfl
  history_put _ _ _ := rfl

/-- The client a rule's line is credited to: the first one with the address it shows. -/
def Account.creditee (a : Account) (cl : ClientList) (row : ListedRule) : Option Client :=
  (lineOf a.address row).bind fun line =>
    if line.target = a.target && inetAton line.ip then clientListFindByIp line.ip cl else none

/-- One line, credited. -/
def Account.update (a : Account) (now : ℤ) (line : CounterLine) (cl : ClientList) : ClientList :=
  if line.target = a.target && inetAton line.ip then
    match clientListFindByIp line.ip cl with
    | none => cl
    | some p1 =>
      if a.shows p1.counters - a.history p1.counters < line.counter then
        cl.modify p1.addr fun c =>
          { c with counters := a.put now (a.history c.counters + line.counter) c.counters }
      else cl
  else cl

/-- INTERNAL: a line of `ndsOUT` is credited to the outgoing account.
SOURCE: fw_iptables.c:909-926 -/
theorem outgoingAccount_update (now : ℤ) (line : CounterLine) (cl : ClientList) :
    outgoingAccount.update now line cl = updateOutgoing now line cl := rfl

/-- INTERNAL: a line of `ndsINC` is credited to the incoming account, whatever the clock shows.
SOURCE: fw_iptables.c:948-964 -/
theorem incomingAccount_update (now : ℤ) (line : CounterLine) (cl : ClientList) :
    incomingAccount.update now line cl = updateIncoming line cl := rfl

/-- A client list with other counters. -/
def withCounters (cl : ClientList) (g : Client → Counters) : ClientList :=
  { cl with firstclient := cl.firstclient.map fun c => { c with counters := g c } }

section Account

variable {a : Account} {cl : ClientList} {g : Client → Counters}

/-- INTERNAL: who is credited does not depend on the counters. -/
theorem clientListFindByIp_withCounters (ip : Text) :
    clientListFindByIp ip (withCounters cl g) =
      (clientListFindByIp ip cl).map fun c => { c with counters := g c } := by
  unfold clientListFindByIp withCounters
  rw [List.find?_map]
  rfl

/-- INTERNAL: a line is credited to its creditee, if it counts more than is shown.
SOURCE: fw_iptables.c:909-926, 948-964 -/
theorem Account.update_withCounters (hnodup : (cl.firstclient.map Client.addr).Nodup)
    (hhistory : ∀ c ∈ cl.firstclient, a.history (g c) = 0) {row : ListedRule} {line : CounterLine}
    (hline : lineOf a.address row = some line) (now : ℤ) :
    a.update now line (withCounters cl g) = withCounters cl fun c =>
      if a.creditee cl row = some c ∧ a.shows (g c) < row.bytes then a.put now row.bytes (g c)
      else g c := by
  have hbytes : line.counter = row.bytes := by
    obtain ⟨read, -, rfl⟩ := Option.map_eq_some_iff.mp hline
    rfl
  unfold Account.update Account.creditee
  rw [hline, Option.bind_some]
  split
  · rw [clientListFindByIp_withCounters]
    cases hfind : clientListFindByIp line.ip cl with
    | none => simp
    | some p1 =>
      have hp1 : p1 ∈ cl.firstclient := List.mem_of_find?_eq_some hfind
      have hsame : ∀ c ∈ cl.firstclient, c.addr = p1.addr ↔ p1 = c := fun c hc =>
        ⟨fun h => (List.inj_on_of_nodup_map hnodup hc hp1 h).symm, fun h => h ▸ rfl⟩
      simp only [Option.map_some, hhistory p1 hp1, sub_zero, hbytes, Option.some.injEq]
      split
      · next hmore =>
        unfold ClientList.modify withCounters
        simp only [List.map_map]
        congr 1
        refine List.map_congr_left fun c hc => ?_
        simp only [Function.comp_apply, hsame c hc, hhistory c hc, zero_add]
        by_cases h : p1 = c
        · subst h
          simp [hmore]
        · simp [h]
      · next hmore =>
        unfold withCounters
        congr 1
        refine List.map_congr_left fun c hc => ?_
        have hnot : ¬(p1 = c ∧ a.shows (g c) < row.bytes) := by
          rintro ⟨rfl, hless⟩
          exact hmore hless
        simp only [if_neg hnot]
  · simp

/-- The client list after the lines of rules have been credited. -/
def Account.after (a : Account) (readAt : ℕ → ℤ) (rows : List ListedRule) (cl : ClientList) :
    ClientList :=
  (rows.filterMap (lineOf a.address)).zipIdx.foldl
    (fun cl l => a.update (readAt l.2) l.1 cl) cl

/-- The counters after the lines of rules have been credited, and the number of lines. -/
def Account.tally (a : Account) (readAt : ℕ → ℤ) (cl : ClientList) (g : Client → Counters)
    (rows : List ListedRule) : (Client → Counters) × ℕ :=
  rows.foldl (fun s row =>
    (fun c => if a.creditee cl row = some c ∧ a.shows (s.1 c) < row.bytes then
        a.put (readAt s.2) row.bytes (s.1 c) else s.1 c,
      if (lineOf a.address row).isSome then s.2 + 1 else s.2)) (g, 0)

theorem Account.tally_append_singleton (readAt : ℕ → ℤ) (rows : List ListedRule)
    (row : ListedRule) (c : Client) :
    (a.tally readAt cl g (rows ++ [row])).1 c =
      if a.creditee cl row = some c ∧ a.shows ((a.tally readAt cl g rows).1 c) < row.bytes then
        a.put (readAt (a.tally readAt cl g rows).2) row.bytes ((a.tally readAt cl g rows).1 c)
      else (a.tally readAt cl g rows).1 c := by
  rw [Account.tally, List.foldl_append]
  rfl

/-- INTERNAL: what crediting keeps. -/
theorem Account.tally_keeps {P : Counters → Prop} (hP : ∀ now v x, P x → P (a.put now v x))
    (readAt : ℕ → ℤ) (rows : List ListedRule) {c : Client} (hc : P (g c)) :
    P ((a.tally readAt cl g rows).1 c) := by
  induction rows using List.reverseRecOn with
  | nil => exact hc
  | append_singleton rows row ih =>
    rw [Account.tally_append_singleton]
    split
    · exact hP _ _ _ ih
    · exact ih

/-- INTERNAL: the counters show a meter that takes the lines credited to the client. -/
theorem Account.tally_shows (readAt : ℕ → ℤ) (rows : List ListedRule) (c : Client) :
    (a.shows ((a.tally readAt cl g rows).1 c)).toNat =
      Meter.shown (fun row : ListedRule => a.creditee cl row = some c) ListedRule.count
        (a.shows (g c)).toNat rows := by
  induction rows using List.reverseRecOn with
  | nil => rfl
  | append_singleton rows row ih =>
    rw [Account.tally_append_singleton, Meter.shown_append_singleton, ← ih]
    by_cases hhit : a.creditee cl row = some c
    · rcases lt_or_ge (a.shows ((a.tally readAt cl g rows).1 c)).toNat row.count with hlt | hge
      · rw [if_pos ⟨hhit, BitVec.lt_def.mpr hlt⟩, if_pos hhit, a.shows_put, max_eq_right hlt.le]
        rfl
      · rw [if_neg fun h => not_lt.mpr hge (BitVec.lt_def.mp h.2), if_pos hhit, max_eq_left hge]
    · rw [if_neg fun h => hhit h.1, if_neg hhit]

/-- INTERNAL: the list after the lines of rules.
SOURCE: fw_iptables.c:905-928, 944-966 -/
theorem Account.after_withCounters (hnodup : (cl.firstclient.map Client.addr).Nodup)
    (hhistory : ∀ c ∈ cl.firstclient, a.history (g c) = 0) (readAt : ℕ → ℤ)
    (rows : List ListedRule) :
    a.after readAt rows (withCounters cl g) = withCounters cl (a.tally readAt cl g rows).1 ∧
      (rows.filterMap (lineOf a.address)).length = (a.tally readAt cl g rows).2 := by
  induction rows using List.reverseRecOn with
  | nil => exact ⟨rfl, rfl⟩
  | append_singleton rows row ih =>
    obtain ⟨hafter, hlength⟩ := ih
    have hzero : ∀ c ∈ cl.firstclient, a.history ((a.tally readAt cl g rows).1 c) = 0 :=
      fun c hc => a.tally_keeps (P := fun x => a.history x = 0)
        (fun now v x hx => (a.history_put now v x).trans hx) readAt rows (hhistory c hc)
    have htally : (a.tally readAt cl g (rows ++ [row])).1 = fun c =>
        if a.creditee cl row = some c ∧ a.shows ((a.tally readAt cl g rows).1 c) < row.bytes then
          a.put (readAt (a.tally readAt cl g rows).2) row.bytes ((a.tally readAt cl g rows).1 c)
        else (a.tally readAt cl g rows).1 c :=
      funext fun c => a.tally_append_singleton readAt rows row c
    have hcount : (a.tally readAt cl g (rows ++ [row])).2 =
        if (lineOf a.address row).isSome then (a.tally readAt cl g rows).2 + 1
        else (a.tally readAt cl g rows).2 := by
      rw [Account.tally, List.foldl_append]
      rfl
    rw [Account.after] at hafter ⊢
    rw [htally, hcount]
    cases hline : lineOf a.address row with
    | none =>
      have hnone : a.creditee cl row = none := by
        rw [Account.creditee, hline, Option.bind_none]
      simp [List.filterMap_append, hline, hafter, hlength, hnone]
    | some line =>
      simp only [List.filterMap_append, List.filterMap_cons, hline, List.filterMap_nil,
        List.zipIdx_append, List.zipIdx_singleton, zero_add, List.foldl_append, List.foldl_cons,
        List.foldl_nil, hafter, hlength, List.length_append,
        Option.isSome_some, if_true, List.length_singleton, and_true]
      exact a.update_withCounters hnodup hzero hline _

/-- The counters of the client at an address. -/
def countersAt (addr : ℕ) (cl : ClientList) : Option Counters :=
  (cl.firstclient.find? fun c => c.addr = addr).map Client.counters

theorem countersAt_withCounters (hnodup : (cl.firstclient.map Client.addr).Nodup) {c : Client}
    (hc : c ∈ cl.firstclient) : countersAt c.addr (withCounters cl g) = some (g c) := by
  have hfind : cl.firstclient.find? (fun d => d.addr = c.addr) = some c := by
    rw [List.find?_eq_some_iff_append]
    obtain ⟨l₁, l₂, hl⟩ := List.append_of_mem hc
    refine ⟨by simp, l₁, l₂, hl, fun d hd => ?_⟩
    rw [hl, List.map_append, List.map_cons, List.nodup_append] at hnodup
    simpa using hnodup.2.2 d.addr (List.mem_map_of_mem hd) c.addr (by simp)
  unfold countersAt withCounters
  rw [List.find?_map, Option.map_map]
  have hsame : (fun d : Client => decide (d.addr = c.addr)) ∘
      (fun d : Client => { d with counters := g d }) = fun d : Client => decide (d.addr = c.addr) := rfl
  rw [hsame, hfind]
  rfl

/-- INTERNAL: a row changes the counters of a client exactly when it raises their meter. -/
theorem Account.changes_iff (hnodup : (cl.firstclient.map Client.addr).Nodup)
    (hhistory : ∀ c ∈ cl.firstclient, a.history (g c) = 0) (readAt : ℕ → ℤ)
    (before : List ListedRule) (row : ListedRule) {c : Client} (hc : c ∈ cl.firstclient) :
    countersAt c.addr (a.after readAt (before ++ [row]) (withCounters cl g)) ≠
        countersAt c.addr (a.after readAt before (withCounters cl g)) ↔
      a.creditee cl row = some c ∧
        Meter.shown (fun row : ListedRule => a.creditee cl row = some c) ListedRule.count
          (a.shows (g c)).toNat before < row.count := by
  rw [(a.after_withCounters hnodup hhistory readAt _).1,
    (a.after_withCounters hnodup hhistory readAt _).1, countersAt_withCounters hnodup hc,
    countersAt_withCounters hnodup hc, ← a.tally_shows readAt, a.tally_append_singleton]
  constructor
  · intro hne
    by_contra hnot
    exact hne (by rw [if_neg fun h => hnot ⟨h.1, BitVec.lt_def.mp h.2⟩])
  · rintro ⟨hhit, hlt⟩ heq
    rw [if_pos ⟨hhit, BitVec.lt_def.mpr hlt⟩, Option.some.injEq] at heq
    have hshows := congrArg a.shows heq
    rw [a.shows_put] at hshows
    rw [← hshows] at hlt
    exact lt_irrefl _ hlt

/-- INTERNAL: only rows of one's own change one's counters exactly when the other rows
credited to one are covered. -/
theorem Account.own_iff (hnodup : (cl.firstclient.map Client.addr).Nodup)
    (hhistory : ∀ c ∈ cl.firstclient, a.history (g c) = 0) (readAt : ℕ → ℤ)
    (rows : List ListedRule) (own : Client → ListedRule → Prop) :
    (∀ before row after, rows = before ++ row :: after → ∀ c ∈ cl.firstclient,
        countersAt c.addr (a.after readAt (before ++ [row]) (withCounters cl g)) ≠
          countersAt c.addr (a.after readAt before (withCounters cl g)) → own c row) ↔
      ∀ c ∈ cl.firstclient, Meter.Covered (fun row : ListedRule => a.creditee cl row = some c)
        ListedRule.count (own c) (a.shows (g c)).toNat rows := by
  constructor
  · intro h c hc
    refine Meter.raisedBy_iff.mp fun before row after hrows hhit hlt => ?_
    exact h before row after hrows c hc
      ((a.changes_iff hnodup hhistory readAt before row hc).mpr ⟨hhit, hlt⟩)
  · intro h before row after hrows c hc hne
    obtain ⟨hhit, hlt⟩ := (a.changes_iff hnodup hhistory readAt before row hc).mp hne
    exact Meter.raisedBy_iff.mpr (h c hc) before row after hrows hhit hlt

end Account

theorem withCounters_self (cl : ClientList) : withCounters cl Client.counters = cl := by
  simp [withCounters]

/-! ## Whose traffic it is -/

/-- The rule is the one that counts the client's outgoing traffic.
SOURCE: fw_iptables.c:774 -/
def OwnOutgoing (fw : Firewall) (c : Client) (row : ListedRule) : Prop :=
  c.fwConnectionState = fw.fwMarkAuthenticated ∧ row.rule = outgoingRule fw c

/-- The rule is the one that counts the client's incoming traffic.
SOURCE: fw_iptables.c:777 -/
def OwnIncoming (fw : Firewall) (c : Client) (row : ListedRule) : Prop :=
  c.fwConnectionState = fw.fwMarkAuthenticated ∧ row.rule = incomingAcceptRule c

/-- The clients after the lines of the given rows have been read, one after the other. -/
def afterRows (readAt : ℕ → ℤ) (cl : ClientList) (outs ins : List ListedRule) : ClientList :=
  (iptablesFwCountersUpdate
    { outgoing := some (outs.filterMap (lineOf sourceColumn))
      incoming := some (ins.filterMap (lineOf destinationColumn))
      readAt := readAt
      now := readAt } cl).2

/-- Traffic is credited to the client whose rule counted it: after the update an
authenticated client's `outgoing` is at least the count of its own rule, and a row of a
listing only changes the counters of the client whose rule it is, those of `ndsOUT`
`outgoing` and `lastUpdated`, those of `ndsINC` `incoming`. -/
structure TrafficCredited (fw : Firewall) (cl : ClientList) (input : RefreshInput)
    (outs ins : List ListedRule) : Prop where
  outgoing_le : ∀ c ∈ cl.firstclient, ∀ row ∈ outs, OwnOutgoing fw c row →
    ∃ counters, countersAt c.addr (iptablesFwCountersUpdate input cl).2 = some counters ∧
      row.bytes ≤ counters.outgoing
  outgoing_own : ∀ before row after, outs = before ++ row :: after → ∀ c ∈ cl.firstclient,
    countersAt c.addr (afterRows input.readAt cl (before ++ [row]) []) ≠
      countersAt c.addr (afterRows input.readAt cl before []) → OwnOutgoing fw c row
  incoming_own : ∀ before row after, ins = before ++ row :: after → ∀ c ∈ cl.firstclient,
    countersAt c.addr (afterRows input.readAt cl outs (before ++ [row])) ≠
      countersAt c.addr (afterRows input.readAt cl outs before) → OwnIncoming fw c row
  outgoing_kept : ∀ c ∈ cl.firstclient,
    (countersAt c.addr (afterRows input.readAt cl outs ins)).map
        (fun counters => (counters.outgoing, counters.lastUpdated)) =
      (countersAt c.addr (afterRows input.readAt cl outs [])).map
        fun counters => (counters.outgoing, counters.lastUpdated)
  incoming_kept : ∀ c ∈ cl.firstclient,
    (countersAt c.addr (afterRows input.readAt cl outs [])).map Counters.incoming =
      some c.counters.incoming

/-- The rows find the clients whose rules they are: the row of a client's own rule in `ndsOUT`
finds that client or counts no more than it shows, and a row that finds another client
counts no more than that one shows or than a row of its own before it. -/
structure RowsFindOwners (fw : Firewall) (cl : ClientList) (outs ins : List ListedRule) :
    Prop where
  found : ∀ c ∈ cl.firstclient, ∀ row ∈ outs, OwnOutgoing fw c row →
    outgoingAccount.creditee cl row = some c ∨ row.count ≤ c.counters.outgoing.toNat
  outgoing : ∀ c ∈ cl.firstclient,
    Meter.Covered (fun row : ListedRule => outgoingAccount.creditee cl row = some c)
      ListedRule.count (OwnOutgoing fw c) c.counters.outgoing.toNat outs
  incoming : ∀ c ∈ cl.firstclient,
    Meter.Covered (fun row : ListedRule => incomingAccount.creditee cl row = some c)
      ListedRule.count (OwnIncoming fw c) c.counters.incoming.toNat ins

/-- INTERNAL: the update is the two accounts, one after the other.
SOURCE: fw_iptables.c:880-970 -/
theorem afterRows_eq (readAt : ℕ → ℤ) (cl : ClientList) (outs ins : List ListedRule) :
    afterRows readAt cl outs ins =
      incomingAccount.after readAt ins (outgoingAccount.after readAt outs cl) := by
  have hin : ∀ (lines : List CounterLine) (cl : ClientList),
      lines.foldl (fun cl l => updateIncoming l cl) cl =
        lines.zipIdx.foldl (fun cl l => incomingAccount.update (readAt l.2) l.1 cl) cl := by
    intro lines cl
    nth_rewrite 1 [← List.zipIdx_map_fst 0 lines]
    simp only [List.foldl_map, incomingAccount_update]
  rw [afterRows, iptablesFwCountersUpdate, Account.after, ← hin, Account.after]
  simp only [outgoingAccount_update]
  rfl

/-- INTERNAL: the rows of one rule find one client. -/
theorem creditee_eq_of_rule {a : Account} {cl : ClientList} {row row' : ListedRule}
    (h : row.rule = row'.rule) : a.creditee cl row = a.creditee cl row' := by
  unfold Account.creditee lineOf
  rw [h]
  cases set 15 isIpChar (a.address row'.rule) <;> rfl

section List

variable {fw : Firewall} {cl : ClientList} {readAt : ℕ → ℤ} {outs ins : List ListedRule}

/-- The counters after `ndsOUT` was read. -/
def outgoingTally (readAt : ℕ → ℤ) (cl : ClientList) (outs : List ListedRule) : Client → Counters :=
  (outgoingAccount.tally readAt cl Client.counters outs).1

/-- INTERNAL: reading `ndsOUT` leaves what belongs to `ndsINC` alone. -/
theorem outgoingTally_incoming (readAt : ℕ → ℤ) (cl : ClientList) (outs : List ListedRule)
    (c : Client) : (outgoingTally readAt cl outs c).incoming = c.counters.incoming ∧
      (outgoingTally readAt cl outs c).incomingHistory = c.counters.incomingHistory :=
  outgoingAccount.tally_keeps
    (P := fun x => x.incoming = c.counters.incoming ∧
      x.incomingHistory = c.counters.incomingHistory) (fun _ _ _ hx => hx) readAt outs ⟨rfl, rfl⟩

theorem afterRows_outgoing (readAt : ℕ → ℤ) (cl : ClientList) (outs : List ListedRule) :
    afterRows readAt cl outs [] =
      outgoingAccount.after readAt outs (withCounters cl Client.counters) := by
  rw [afterRows_eq, withCounters_self]
  rfl

variable (hnodup : (cl.firstclient.map Client.addr).Nodup)
  (hhistory : ∀ c ∈ cl.firstclient,
    c.counters.incomingHistory = 0 ∧ c.counters.outgoingHistory = 0)

include hnodup hhistory

theorem afterRows_outgoing_eq (outs : List ListedRule) :
    afterRows readAt cl outs [] = withCounters cl (outgoingTally readAt cl outs) := by
  rw [afterRows_outgoing]
  exact (outgoingAccount.after_withCounters hnodup (fun c hc => (hhistory c hc).2) readAt outs).1

theorem afterRows_incoming (outs ins : List ListedRule) :
    afterRows readAt cl outs ins =
      incomingAccount.after readAt ins (withCounters cl (outgoingTally readAt cl outs)) := by
  rw [afterRows_eq, ← afterRows_outgoing_eq hnodup hhistory, afterRows_outgoing, withCounters_self]

/-- INTERNAL: `outgoing` shows the meter of `ndsOUT` in the end, and `incoming` and the time
stamp are touched by one listing each. -/
theorem countersAt_afterRows {c : Client} (hc : c ∈ cl.firstclient) :
    ∃ counters, countersAt c.addr (afterRows readAt cl outs ins) = some counters ∧
      (counters.outgoing, counters.lastUpdated) =
        ((outgoingTally readAt cl outs c).outgoing, (outgoingTally readAt cl outs c).lastUpdated) := by
  have hzero : ∀ d ∈ cl.firstclient, incomingAccount.history (outgoingTally readAt cl outs d) = 0 :=
    fun d hd => (outgoingTally_incoming readAt cl outs d).2.trans (hhistory d hd).1
  refine ⟨(incomingAccount.tally readAt cl (outgoingTally readAt cl outs) ins).1 c, ?_, ?_⟩
  · rw [afterRows_incoming hnodup hhistory,
      (incomingAccount.after_withCounters hnodup hzero readAt ins).1,
      countersAt_withCounters hnodup hc]
  · exact incomingAccount.tally_keeps
      (P := fun x => (x.outgoing, x.lastUpdated) = ((outgoingTally readAt cl outs c).outgoing,
        (outgoingTally readAt cl outs c).lastUpdated)) (fun _ _ _ hx => hx) readAt ins rfl

/-- INTERNAL: every own row is credited, or counts no more than is shown, when only own rows
change the counters. -/
theorem outgoing_le_iff {c : Client} (hc : c ∈ cl.firstclient)
    (hcovered : Meter.Covered (fun row : ListedRule => outgoingAccount.creditee cl row = some c)
      ListedRule.count (OwnOutgoing fw c) c.counters.outgoing.toNat outs) :
    (∀ row ∈ outs, OwnOutgoing fw c row → ∃ counters,
        countersAt c.addr (afterRows readAt cl outs ins) = some counters ∧
          row.bytes ≤ counters.outgoing) ↔
      ∀ row ∈ outs, OwnOutgoing fw c row →
        outgoingAccount.creditee cl row = some c ∨ row.count ≤ c.counters.outgoing.toNat := by
  obtain ⟨counters, hcounters, hpair⟩ := countersAt_afterRows hnodup hhistory hc
  have hmeter : counters.outgoing.toNat =
      Meter.shown (fun row : ListedRule => outgoingAccount.creditee cl row = some c)
        ListedRule.count c.counters.outgoing.toNat outs := by
    rw [(Prod.mk.inj hpair).1]
    exact outgoingAccount.tally_shows readAt outs c
  refine forall_congr' fun row => imp_congr_right fun hmem => imp_congr_right fun hown => ?_
  constructor
  · rintro ⟨counters', hcounters', hle⟩
    obtain rfl : counters' = counters := Option.some.inj (hcounters'.symm.trans hcounters)
    by_cases hhit : outgoingAccount.creditee cl row = some c
    · exact Or.inl hhit
    · refine Or.inr ?_
      have hle' : row.count ≤ counters'.outgoing.toNat := BitVec.le_def.mp hle
      rw [hmeter] at hle'
      -- no row of the client's own is credited to it, so it shows what it showed
      rcases (Meter.raisedBy_iff.mpr hcovered).shown_mem with hshown | ⟨row', -, hhit', hown', -⟩
      · rwa [hshown] at hle'
      · rw [creditee_eq_of_rule (hown'.2.trans hown.2.symm)] at hhit'
        exact absurd hhit' hhit
  · intro h
    refine ⟨counters, hcounters, BitVec.le_def.mpr ?_⟩
    rw [hmeter]
    rcases h with hhit | hle
    · exact Meter.value_le_shown (fun row : ListedRule => outgoingAccount.creditee cl row = some c)
        ListedRule.count _ hmem hhit
    · exact hle.trans (Meter.le_shown _ _ _ _)

end List

/-- **Traffic is credited to its owner** exactly when the rows of the listings find their
owners: for every client list the daemon reaches and all listings.
SOURCE: fw_iptables.c:880-970 -/
theorem traffic_credited_iff (out : Outside) (config : Config) (requests : List Request)
    (h h' : Host) (w : World) (hrun : runOn out (daemonRun config requests) h = (some w, h'))
    (output₁ output₂ : Text) (outs ins : List ListedRule) (hout : ListsRules output₁ outs)
    (hin : ListsRules output₂ ins) (readAt now : ℕ → ℤ) :
    TrafficCredited w.fw w.clients
        { outgoing := some (counterLines 4 output₁)
          incoming := some (counterLines 5 output₂)
          readAt := readAt
          now := now } outs ins ↔
      RowsFindOwners w.fw w.clients outs ins := by
  have hplain := plainCounters_of_run hrun
  have hnodup := hplain.clients.addr_nodup
  have hhistory := hplain.history
  have hupdate : (iptablesFwCountersUpdate
      { outgoing := some (counterLines 4 output₁)
        incoming := some (counterLines 5 output₂)
        readAt := readAt
        now := now } w.clients).2 = afterRows readAt w.clients outs ins := by
    rw [counterLines_of_lists readsAddress_source hout,
      counterLines_of_lists readsAddress_destination hin]
    rfl
  have hown := outgoingAccount.own_iff (g := Client.counters) hnodup
    (fun c hc => (hhistory c hc).2) readAt outs (OwnOutgoing w.fw)
  have hown' := incomingAccount.own_iff (g := outgoingTally readAt w.clients outs) hnodup
    (fun c hc => (outgoingTally_incoming readAt w.clients outs c).2.trans (hhistory c hc).1)
    readAt ins (OwnIncoming w.fw)
  have hshows : ∀ c, incomingAccount.shows (outgoingTally readAt w.clients outs c) =
      c.counters.incoming := fun c => (outgoingTally_incoming readAt w.clients outs c).1
  simp only [← afterRows_outgoing] at hown
  simp only [← afterRows_incoming hnodup hhistory, hshows] at hown'
  constructor
  · intro hcredited
    have hcovered := hown.mp hcredited.outgoing_own
    refine ⟨fun c hc => ?_, hcovered, hown'.mp hcredited.incoming_own⟩
    have hle := hcredited.outgoing_le c hc
    rw [hupdate] at hle
    exact (outgoing_le_iff hnodup hhistory hc (hcovered c hc)).mp hle
  · intro hfind
    refine ⟨fun c hc => ?_, hown.mpr hfind.outgoing, hown'.mpr hfind.incoming, ?_, ?_⟩
    · rw [hupdate]
      exact (outgoing_le_iff hnodup hhistory hc (hfind.outgoing c hc)).mpr (hfind.found c hc)
    · intro c hc
      obtain ⟨counters, hcounters, hpair⟩ := countersAt_afterRows hnodup hhistory hc
      rw [hcounters, afterRows_outgoing_eq hnodup hhistory, countersAt_withCounters hnodup hc]
      exact congrArg some hpair
    · intro c hc
      rw [afterRows_outgoing_eq hnodup hhistory, countersAt_withCounters hnodup hc]
      exact congrArg some (outgoingTally_incoming readAt w.clients outs c).1

/-! ## A shared address -/

/-- The clients of the given MAC addresses are authenticated, one after the other, all of them
under the address 10.0.0.2. -/
def sharedAddressRequests (macs : List String) : List Request :=
  macs.mapIdx fun i mac => .ndsctlAuth
    { arpTable := ("IP address HW type Flags HW address Mask Device\n" ++
        "10.0.0.2 0x1 0x2 " ++ mac ++ " * br0\n").toList
      rand16 := (0, 0)
      time := 0
      mallocHint := i + 1 } "10.0.0.2".toList

/-- One of them, as the daemon keeps it. -/
def sharingClient (slot : ℕ) (mac : String) : Client :=
  { addr := slot + 1
    ip := "10.0.0.2".toList
    mac := mac.toList
    token := some "00000000".toList
    fwConnectionState := 0x400
    idx := slot }

/-- The client list of a daemon with these clients. -/
def sharingClients (macs : List String) : ClientList :=
  { firstclient := macs.mapIdx sharingClient
    clientArr := macs.mapIdx (fun i _ => some (i + 1)) ++ List.replicate (20 - macs.length) none
    clientCount := macs.length }

/-- INTERNAL: the state a run reaches, when it can be computed. -/
theorem reaches_sharing {requests : List Request} {cl : ClientList} {fw : Firewall}
    (hcheck : checkRun obligingMachine {} requests emptyRouter
      (fun w => decide (w.fw = fw) && decide (w.clients = cl)) = true) :
    ∃ w h', runOn obligingMachine (daemonRun {} requests) emptyRouter = (some w, h') ∧
      w.fw = fw ∧ w.clients = cl := by
  obtain ⟨w, h', hreach, hstate⟩ := reaches_of_checkRun hcheck
  rw [Bool.and_eq_true, decide_eq_true_eq, decide_eq_true_eq] at hstate
  exact ⟨w, h', hreach.run, hstate⟩

/-- The globals after the start. -/
def startedFw : Firewall :=
  { markop := .orMark
    markmask := some 0x700
    fwMarkAuthenticated := 0x400
    fwMarkTrusted := 0x200
    fwMarkBlocked := 0x100
    fwMarkMask := 0x700 }

/-- A line that shows a rule. -/
def sampleLine (row : ListedRule) : Text :=
  printColumns (row.columns (fun _ => 3) "7".toList "all".toList "--".toList "*".toList "*".toList)

/-- A listing of rules. -/
def sampleListing (rows : List ListedRule) : Text :=
  "Chain".toList ++ '\n' :: ("pkts bytes".toList ++ '\n' :: (rows.map sampleLine).flatMap (· ++ ['\n']))

theorem listsRules_sampleListing {rows : List ListedRule}
    (h : ∀ row ∈ rows, ∀ column ∈ row.columns (fun _ => 3) "7".toList "all".toList
      "--".toList "*".toList "*".toList, IsWord column.2) :
    ListsRules (sampleListing rows) rows := by
  refine ⟨_, _, rows.map sampleLine, by decide, by decide, ?_, rfl⟩
  rw [List.forall₂_map_right_iff, List.forall₂_same]
  intro row hrow
  have hshows := Shows.line (fun _ => 3) _ _ _ _ _ [] (h row hrow) (by simp)
  rwa [List.append_nil] at hshows

/-- The row of the rule that counts a client's outgoing traffic. -/
def outgoingRow (client : Client) (bytes : BitVec 64) : ListedRule :=
  ⟨outgoingRule startedFw client, bytes⟩

/-- A client that has its address for itself is credited what its rule counted. -/
theorem traffic_credited_single :
    ∃ w h', runOn obligingMachine (daemonRun {} (sharedAddressRequests ["00:11:22:33:44:55"]))
        emptyRouter = (some w, h') ∧
      w.clients = sharingClients ["00:11:22:33:44:55"] ∧
      TrafficCredited w.fw w.clients
        { outgoing := some (counterLines 4
            (sampleListing [outgoingRow (sharingClient 0 "00:11:22:33:44:55") 500]))
          incoming := some (counterLines 5 (sampleListing []))
          readAt := fun _ => 60
          now := fun _ => 60 }
        [outgoingRow (sharingClient 0 "00:11:22:33:44:55") 500] [] := by
  obtain ⟨w, h', hrun, hfw, hclients⟩ := @reaches_sharing
    (sharedAddressRequests ["00:11:22:33:44:55"]) (sharingClients ["00:11:22:33:44:55"]) startedFw
    (by decide +kernel)
  refine ⟨w, h', hrun, hclients, (traffic_credited_iff _ _ _ _ h' w hrun _ _ _ _
    (listsRules_sampleListing (by decide +kernel)) (listsRules_sampleListing (by simp)) _ _).mpr ?_⟩
  rw [hfw, hclients]
  have hclient : ∀ c ∈ (sharingClients ["00:11:22:33:44:55"]).firstclient,
      c = sharingClient 0 "00:11:22:33:44:55" := by
    intro c hc
    exact List.mem_singleton.mp hc
  have hcredited : outgoingAccount.creditee (sharingClients ["00:11:22:33:44:55"])
      (outgoingRow (sharingClient 0 "00:11:22:33:44:55") 500) =
        some (sharingClient 0 "00:11:22:33:44:55") := by
    decide +kernel
  refine ⟨fun c hc row hrow _ => Or.inl ?_, fun c hc before row after hrows _ hother => ?_,
    fun c hc before row after hrows => by simp at hrows⟩
  · rw [List.mem_singleton.mp hrow, hclient c hc]
    exact hcredited
  · have hrow : row ∈ [outgoingRow (sharingClient 0 "00:11:22:33:44:55") 500] := by
      rw [hrows]
      simp
    rw [List.mem_singleton.mp hrow, hclient c hc] at hother
    exact absurd ⟨rfl, rfl⟩ hother

/-- The rows of the rules that mark and count a client's incoming traffic, of which there was
none. -/
def silentRows (client : Client) : List ListedRule :=
  (incomingRules startedFw client).map fun rule => ⟨rule, 0⟩

/-- Two clients under one address: what the second one's rule counted is credited
to the first one.
SOURCE: fw_iptables.c:917-920 -/
theorem traffic_not_credited :
    let client₁ := sharingClient 0 "00:11:22:33:44:55"
    let client₂ := sharingClient 1 "66:77:88:99:aa:bb"
    let outs := [outgoingRow client₁ 0, outgoingRow client₂ 500]
    let ins := silentRows client₁ ++ silentRows client₂
    ∃ w h', runOn obligingMachine
        (daemonRun {} (sharedAddressRequests ["00:11:22:33:44:55", "66:77:88:99:aa:bb"]))
        emptyRouter = (some w, h') ∧
      ListsRules (sampleListing outs) outs ∧ ListsRules (sampleListing ins) ins ∧
      ¬TrafficCredited w.fw w.clients
        { outgoing := some (counterLines 4 (sampleListing outs))
          incoming := some (counterLines 5 (sampleListing ins))
          readAt := fun _ => 60
          now := fun _ => 60 } outs ins := by
  intro client₁ client₂ outs ins
  obtain ⟨w, h', hrun, hfw, hclients⟩ := @reaches_sharing
    (sharedAddressRequests ["00:11:22:33:44:55", "66:77:88:99:aa:bb"])
    (sharingClients ["00:11:22:33:44:55", "66:77:88:99:aa:bb"]) startedFw (by decide +kernel)
  refine ⟨w, h', hrun, listsRules_sampleListing (by decide +kernel),
    listsRules_sampleListing (by decide +kernel), fun hcredited => ?_⟩
  rw [hfw, hclients] at hcredited
  obtain ⟨counters, hcounters, hle⟩ := hcredited.outgoing_le client₂ (by decide +kernel)
    (outgoingRow client₂ 500) (by simp [outs]) ⟨rfl, rfl⟩
  have hzero : counters = {} := Option.some.inj (hcounters.symm.trans (by decide +kernel))
  rw [hzero] at hle
  exact absurd hle (by decide)

end WifiCat.Analysis
