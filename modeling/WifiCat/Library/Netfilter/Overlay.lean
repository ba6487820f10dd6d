import WifiCat.Library.Netfilter.Table

/-!
# Tables with chains of one's own laid over them

A program that works on a table of somebody else's adds chains of its own (`own`) and, to
the chains that were there, rules that jump into them.  `Overlay own A b base t` says that
`t` is `base` with such additions: own chains behind the chains of `base`, and in a chain
`c` of `base` jumps to the own chains `d` with `A c d`, among the first `b` rules.

An edit of an own chain keeps the overlay (`Overlay.edit`), deletions take the jumps out
(`Overlay.deleteNum`), and when no jump is left, emptying and deleting the own chains gives
`base` back (`Overlay.sweep`).
-/

set_option autoImplicit false

namespace Netfilter

variable {M V X : Type}

/-! ## Rules laid into a chain -/

/-- The rule jumps to one of the chains. -/
def Rule.jumpsInto (own : List String) (r : Rule M V X) : Bool :=
  own.any fun d => r.jumpsTo d

theorem Rule.jumpsInto_iff {own : List String} {r : Rule M V X} :
    r.jumpsInto own = true ↔ ∃ d ∈ own, r.target = .jump d := by
  unfold jumpsInto jumpsTo
  rw [List.any_eq_true]
  refine exists_congr fun d => and_congr_right fun _ => ?_
  cases r.target <;> simp

theorem filter_insertIdx {α : Type} {p : α → Bool} {a : α} (ha : p a = false) (l : List α)
    (n : ℕ) : (l.insertIdx n a).filter p = l.filter p := by
  induction l generalizing n with
  | nil => cases n <;> simp [ha]
  | cons b l ih =>
    cases n with
    | zero => simp [ha]
    | succ n => simp [List.filter_cons, ih]

theorem filter_eraseIdx {α : Type} {p : α → Bool} {a : α} (ha : p a = false) {l : List α}
    {i : ℕ} (hi : l[i]? = some a) : (l.eraseIdx i).filter p = l.filter p := by
  induction l generalizing i with
  | nil => simp
  | cons b l ih =>
    cases i with
    | zero =>
      rw [List.getElem?_cons_zero, Option.some.injEq] at hi
      simp [hi, ha]
    | succ i => simp [List.filter_cons, ih (i := i) (by simpa using hi)]

/-- A chain with jumps to own chains among its first `b` rules, otherwise as it was. -/
structure Laid (own : List String) (A : String → Prop) (b : ℕ)
    (base rs : List (Rule M V X)) : Prop where
  rest : rs.filter (fun r => !r.jumpsInto own) = base
  placed : ∀ i r, rs[i]? = some r → r.jumpsInto own = true →
    i < b ∧ ∀ d, r.target = .jump d → A d

namespace Laid

variable {own : List String} {A A' : String → Prop} {b : ℕ} {base rs : List (Rule M V X)}
  {r : Rule M V X}

theorem refl (h : ∀ r ∈ base, r.jumpsInto own = false) : Laid own A b base base where
  rest := List.filter_eq_self.mpr fun r hr => by simp [h r hr]
  placed i r hi hown := by
    rw [h r (List.mem_of_getElem? hi)] at hown
    cases hown

/-- The rules of the base jump to no own chain. -/
theorem base_not_into (h : Laid own A b base rs) (hr : r ∈ base) : r.jumpsInto own = false := by
  rw [← h.rest, List.mem_filter] at hr
  simpa using hr.2

theorem mem_base (h : Laid own A b base rs) (hr : r ∈ rs) (hnot : r.jumpsInto own = false) :
    r ∈ base := by
  rw [← h.rest]
  exact List.mem_filter.mpr ⟨hr, by simp [hnot]⟩

/-- The jumps still there may be fewer than the ones allowed. -/
theorem restrict (h : Laid own A b base rs)
    (hA : ∀ r ∈ rs, r.jumpsInto own = true → ∀ d, r.target = .jump d → A d → A' d) :
    Laid own A' b base rs where
  rest := h.rest
  placed i r hi hown := by
    obtain ⟨hlt, hall⟩ := h.placed i r hi hown
    exact ⟨hlt, fun d hd => hA r (List.mem_of_getElem? hi) hown d hd (hall d hd)⟩

theorem insertIdx (h : Laid own A b base rs) {n : ℕ} (hn : b ≤ n)
    (hr : r.jumpsInto own = true) (hA : ∀ d, r.target = .jump d → A d) :
    Laid own A (n + 1) base (rs.insertIdx n r) where
  rest := by
    rw [filter_insertIdx (by simp [hr]), h.rest]
  placed i r' hi hown := by
    rw [List.getElem?_insertIdx] at hi
    split at hi
    · obtain ⟨hlt, hall⟩ := h.placed i r' hi hown
      exact ⟨by omega, hall⟩
    · split at hi
      · split at hi <;> cases hi
        exact ⟨by omega, hA⟩
      · obtain ⟨hlt, -⟩ := h.placed (i - 1) r' hi hown
        omega

theorem eraseIdx (h : Laid own A b base rs) {i : ℕ} (hi : rs[i]? = some r)
    (hr : r.jumpsInto own = true) : Laid own A b base (rs.eraseIdx i) where
  rest := by
    rw [filter_eraseIdx (by simp [hr]) hi, h.rest]
  placed j r' hj hown := by
    rw [List.getElem?_eraseIdx] at hj
    split at hj
    · exact h.placed j r' hj hown
    · obtain ⟨hlt, hall⟩ := h.placed (j + 1) r' hj hown
      exact ⟨by omega, hall⟩

/-- At most `b` rules are laid into the chain. -/
theorem count_le (h : Laid own A b base rs) : rs.countP (Rule.jumpsInto own) ≤ b := by
  have hdrop : (rs.drop b).countP (Rule.jumpsInto own) = 0 := by
    rw [List.countP_eq_zero]
    intro r hr hown
    obtain ⟨i, hi⟩ := List.mem_iff_getElem?.mp hr
    rw [List.getElem?_drop] at hi
    have hlt := (h.placed (b + i) r hi hown).1
    omega
  calc
    rs.countP (Rule.jumpsInto own) =
        (rs.take b).countP (Rule.jumpsInto own) + (rs.drop b).countP (Rule.jumpsInto own) := by
      rw [← List.countP_append, List.take_append_drop]
    _ ≤ (rs.take b).length + 0 := by
      rw [hdrop]
      exact Nat.add_le_add_right List.countP_le_length 0
    _ ≤ b := by
      rw [List.length_take]
      omega

/-- With no jump left the chain is as it was. -/
theorem eq_base (h : Laid own (fun _ => False) b base rs) : rs = base := by
  rw [← h.rest]
  refine (List.filter_eq_self.mpr fun r hr => ?_).symm
  by_contra hown
  obtain ⟨i, hi⟩ := List.mem_iff_getElem?.mp hr
  have hinto : r.jumpsInto own = true := by simpa using hown
  obtain ⟨d, -, hd⟩ := Rule.jumpsInto_iff.mp hinto
  exact (h.placed i r hi hinto).2 d hd

end Laid

/-! ## Overlays -/

/-- A table with own chains, and jumps to them in the chains of `base`. -/
structure Overlay (own : List String) (A : String → String → Prop) (b : ℕ)
    (base t : Table M V X) : Prop where
  names : ∃ extra, t.names = base.names ++ extra ∧ ∀ c ∈ extra, c ∈ own
  disjoint : ∀ c ∈ own, c ∉ base.names
  laid : ∀ c rs, base.rules c = some rs → ∃ rs', t.rules c = some rs' ∧ Laid own (A c) b rs rs'

namespace Overlay

variable {own : List String} {A A' : String → String → Prop} {b : ℕ} {base t u : Table M V X}

theorem refl (hdisjoint : ∀ c ∈ own, c ∉ base.names)
    (h : ∀ c rs, base.rules c = some rs → ∀ r ∈ rs, r.jumpsInto own = false) :
    Overlay own A b base base where
  names := ⟨[], by simp⟩
  disjoint := hdisjoint
  laid c rs hrs := ⟨rs, hrs, Laid.refl (h c rs hrs)⟩

/-- A chain of the base is no own chain. -/
theorem not_own (h : Overlay own A b base t) {c : String} {rs : List (Rule M V X)}
    (hrs : base.rules c = some rs) : c ∉ own := by
  intro hc
  exact h.disjoint c hc ((base.rules_isSome c).mp (by simp [hrs]))

/-- A chain of neither kind is not in the table. -/
theorem rules_eq_none (h : Overlay own A b base t) {c : String} (hc : c ∉ own)
    (hbase : base.rules c = none) : t.rules c = none := by
  obtain ⟨extra, hnames, hextra⟩ := h.names
  rw [Table.rules_eq_none] at hbase ⊢
  rw [hnames, List.mem_append]
  rintro (hmem | hmem)
  · exact hbase hmem
  · exact hc (hextra c hmem)

/-- The jumps still there may be fewer than the ones allowed. -/
theorem restrict (h : Overlay own A b base t)
    (hA : ∀ c rs, t.rules c = some rs → base.rules c ≠ none → ∀ r ∈ rs,
      r.jumpsInto own = true → ∀ d, r.target = .jump d → A c d → A' c d) :
    Overlay own A' b base t where
  names := h.names
  disjoint := h.disjoint
  laid c rs hrs := by
    obtain ⟨rs', hrs', hlaid⟩ := h.laid c rs hrs
    exact ⟨rs', hrs', hlaid.restrict (hA c rs' hrs' (by simp [hrs]))⟩

/-- An overlay without own chains and without jumps is its base. -/
theorem eq_base (h : Overlay own (fun _ _ => False) b base t)
    (hnone : ∀ c ∈ own, t.rules c = none) : t = base := by
  obtain ⟨extra, hnames, hextra⟩ := h.names
  have hnil : extra = [] := by
    refine List.eq_nil_iff_forall_not_mem.mpr fun c hc => ?_
    have hmem : c ∈ t.names := by
      rw [hnames]
      exact List.mem_append_right _ hc
    exact (t.rules_eq_none c).mp (hnone c (hextra c hc)) hmem
  refine Table.eq_of_rules (by rw [hnames, hnil, List.append_nil]) fun c => ?_
  cases hbase : base.rules c with
  | some rs =>
    obtain ⟨rs', hrs', hlaid⟩ := h.laid c rs hbase
    rw [hrs', hlaid.eq_base]
  | none =>
    by_cases hc : c ∈ own
    · exact hnone c hc
    · exact h.rules_eq_none hc hbase

variable [DecidableEq M] [DecidableEq V] [DecidableEq X]

/-- The names after an edit that makes and drops own chains only. -/
theorem names_edit {op : Op M V X} (hdisjoint : ∀ c ∈ own, c ∉ base.names)
    (hnames : ∃ extra, t.names = base.names ++ extra ∧ ∀ c ∈ extra, c ∈ own)
    (hop : op.apply t = some u)
    (hnew : ∀ c, op = .newChain c ∨ op = .deleteChain c → c ∈ own) :
    ∃ extra, u.names = base.names ++ extra ∧ ∀ c ∈ extra, c ∈ own := by
  obtain ⟨extra, hext, hextra⟩ := hnames
  have happly := Op.names_of_apply hop
  cases op with
  | newChain c =>
    refine ⟨extra ++ [c], by rw [happly, Op.effectNames, hext, List.append_assoc], ?_⟩
    intro d hd
    rcases List.mem_append.mp hd with hd | hd
    · exact hextra d hd
    · rw [List.mem_singleton.mp hd]
      exact hnew c (Or.inl rfl)
  | deleteChain c =>
    have hself : base.names.filter (· != c) = base.names := by
      refine List.filter_eq_self.mpr fun d hd => ?_
      rw [bne_iff_ne]
      rintro rfl
      exact hdisjoint d (hnew d (Or.inr rfl)) hd
    refine ⟨extra.filter (· != c), ?_, ?_⟩
    · rw [happly, Op.effectNames, hext, List.filter_append, hself]
    · intro d hd
      exact hextra d (List.mem_filter.mp hd).1
  | append c r => exact ⟨extra, happly.trans hext, hextra⟩
  | insert c n r => exact ⟨extra, happly.trans hext, hextra⟩
  | delete c r => exact ⟨extra, happly.trans hext, hextra⟩
  | deleteNum c n => exact ⟨extra, happly.trans hext, hextra⟩
  | flush c => exact ⟨extra, happly.trans hext, hextra⟩

/-- **An edit of an own chain** keeps the overlay. -/
theorem edit (h : Overlay own A b base t) {op : Op M V X} (hop : op.apply t = some u)
    (hchain : op.chain ∈ own) : Overlay own A b base u where
  names := by
    refine names_edit h.disjoint h.names hop fun c hc => ?_
    rcases hc with rfl | rfl <;> exact hchain
  disjoint := h.disjoint
  laid c rs hrs := by
    have hne : c ≠ op.chain := by
      rintro rfl
      exact h.not_own hrs hchain
    rw [Op.rules_of_apply hop, if_neg hne]
    exact h.laid c rs hrs

/-- **Deleting a jump** keeps the overlay. -/
theorem deleteNum (h : Overlay own A b base t) {c : String} {rs : List (Rule M V X)} {i : ℕ}
    {r : Rule M V X} (hrs : t.rules c = some rs) (hi : rs[i]? = some r)
    (hr : r.jumpsInto own = true) :
    (Op.deleteNum c i).apply t = some (t.set c (rs.eraseIdx i)) ∧
      Overlay own A b base (t.set c (rs.eraseIdx i)) := by
  have hlt : i < rs.length := (List.getElem?_eq_some_iff.mp hi).1
  have hop : (Op.deleteNum c i).apply t = some (t.set c (rs.eraseIdx i)) := by
    simp [Op.apply, hrs, hlt]
  refine ⟨hop, ?_, h.disjoint, ?_⟩
  · refine names_edit h.disjoint h.names hop fun d hd => ?_
    rcases hd with hd | hd <;> cases hd
  · intro d rs₀ hbase
    obtain ⟨rs', hrs', hlaid⟩ := h.laid d rs₀ hbase
    rw [Table.rules_set]
    by_cases hd : d = c
    · subst hd
      rw [hrs] at hrs'
      cases hrs'
      exact ⟨rs.eraseIdx i, by simp [hrs], hlaid.eraseIdx hi hr⟩
    · rw [if_neg hd]
      exact ⟨rs', hrs', hlaid⟩

/-! ## Laying an overlay -/

section Commands

variable {K : Type}

/-- `x` inserts before the place where `y` inserts, if both insert into one chain. -/
def Before (x y : Cmd K M V X) : Prop :=
  ∀ c n r n' r', x.op = .insert c n r → y.op = .insert c n' r' → n < n'

omit [DecidableEq M] [DecidableEq V] [DecidableEq X] in
theorem before_insert {k k' : K} {c c' : String} {n n' : ℕ} {r r' : Rule M V X} :
    Before (⟨k, .insert c n r⟩ : Cmd K M V X) ⟨k', .insert c' n' r'⟩ ↔ (c = c' → n < n') := by
  constructor
  · rintro h rfl
    exact h c n r n' r' rfl rfl
  · rintro h _ _ _ _ _ ⟨⟩ ⟨⟩
    exact h rfl

variable [DecidableEq K]

/-- Insertions of jumps into one chain, each behind the one before. -/
theorem laid_replay {J : String → Prop} {k : K} {c : String} {cs : List (Cmd K M V X)}
    {n₀ : ℕ} {rs₀ rs : List (Rule M V X)} (h : Laid own J n₀ rs₀ rs) (hn₀ : n₀ ≤ b)
    (hcs : ∀ cmd ∈ cs, ∃ n r, cmd = ⟨k, .insert c n r⟩ ∧ n₀ ≤ n ∧ n < b ∧
      r.jumpsInto own = true ∧ ∀ d, r.target = .jump d → J d)
    (horder : cs.Pairwise Before) :
    ∃ rs', Cmd.replay k c cs (some rs) = some rs' ∧ Laid own J b rs₀ rs' := by
  induction cs generalizing n₀ rs with
  | nil =>
    refine ⟨rs, rfl, h.rest, fun i r hi hown => ?_⟩
    obtain ⟨hlt, hall⟩ := h.placed i r hi hown
    exact ⟨by omega, hall⟩
  | cons cmd cs ih =>
    obtain ⟨n, r, rfl, hle, hlt, hinto, hJ⟩ := hcs cmd (by simp)
    rw [List.pairwise_cons] at horder
    have hone : Cmd.onChain k c (⟨k, .insert c n r⟩ : Cmd K M V X) = true := by
      simp [Cmd.onChain, Op.chain]
    rw [Cmd.replay_cons, if_pos hone]
    refine ih (h.insertIdx hle hinto hJ) hlt (fun cmd hcmd => ?_) horder.2
    obtain ⟨n', r', rfl, -, hrest⟩ := hcs cmd (List.mem_cons_of_mem _ hcmd)
    exact ⟨n', r', rfl, horder.1 _ hcmd c n r n' r' rfl rfl, hrest⟩

/-- **Commands that make own chains and insert jumps** lay an overlay over the tables they
start from. -/
theorem of_applyAll {own : K → List String} {A : K → String → String → Prop}
    {base us : Tables K M V X} {cs : List (Cmd K M V X)}
    (hbase : ∀ k, Overlay (own k) (A k) 0 (base k) (base k))
    (happly : Cmd.applyAll cs base = some us)
    (hnew : ∀ cmd ∈ cs, ∀ c, cmd.op = .newChain c ∨ cmd.op = .deleteChain c →
      c ∈ own cmd.table)
    (hinsert : ∀ k c, c ∉ own k → ∀ cmd ∈ cs.filter (Cmd.onChain k c), ∃ n r,
      cmd = ⟨k, .insert c n r⟩ ∧ n < b ∧ r.jumpsInto (own k) = true ∧
        ∀ d, r.target = .jump d → A k c d)
    (horder : ∀ k c, c ∉ own k → (cs.filter (Cmd.onChain k c)).Pairwise Before) (k : K) :
    Overlay (own k) (A k) b (base k) (us k) := by
  refine ⟨?_, (hbase k).disjoint, fun c rs hrs => ?_⟩
  · have hnames : ∀ (cs : List (Cmd K M V X)) (ts : Tables K M V X),
        (∃ extra, (ts k).names = (base k).names ++ extra ∧ ∀ c ∈ extra, c ∈ own k) →
        Cmd.applyAll cs ts = some us →
        (∀ cmd ∈ cs, ∀ c, cmd.op = .newChain c ∨ cmd.op = .deleteChain c →
          c ∈ own cmd.table) →
        ∃ extra, (us k).names = (base k).names ++ extra ∧ ∀ c ∈ extra, c ∈ own k := by
      intro cs
      induction cs with
      | nil =>
        rintro ts hts ⟨⟩ -
        exact hts
      | cons cmd cs ih =>
        intro ts hts happly hnew
        simp only [Cmd.applyAll, List.foldlM_cons, Option.bind_eq_bind, Option.bind_eq_some_iff]
          at happly
        obtain ⟨ms, hms, hrest⟩ := happly
        refine ih ms ?_ hrest fun cmd hcmd => hnew cmd (List.mem_cons_of_mem _ hcmd)
        obtain ⟨t, ht, rfl⟩ := Option.map_eq_some_iff.mp hms
        by_cases hk : cmd.table = k
        · subst hk
          rw [Function.update_self]
          exact names_edit (hbase _).disjoint hts ht (hnew cmd (by simp))
        · rwa [Function.update_of_ne (Ne.symm hk)]
    exact hnames cs base (hbase k).names happly hnew
  · have hc := (hbase k).not_own hrs
    obtain ⟨rs', hrs', hlaid⟩ := (hbase k).laid c rs hrs
    cases hrs.symm.trans hrs'
    obtain ⟨rs', hrs', hlaid'⟩ := laid_replay hlaid
      (Nat.zero_le b) (fun cmd hcmd => by
        obtain ⟨n, r, rfl, hlt, hrest⟩ := hinsert k c hc cmd hcmd
        exact ⟨n, r, rfl, Nat.zero_le n, hlt, hrest⟩) (horder k c hc)
    refine ⟨rs', ?_, hlaid'⟩
    rw [Cmd.rules_of_applyAll happly, hrs, ← hrs']
    simp [Cmd.replay]

end Commands

/-! ## Taking an overlay away -/

theorem rules_attempt_flush (t : Table M V X) (c d : String) :
    (Op.attempt (.flush c) t).rules d =
      if d = c then (t.rules d).map fun _ => [] else t.rules d := by
  unfold Op.attempt
  cases hc : t.rules c with
  | none =>
    by_cases hd : d = c
    · subst hd
      simp [Op.apply, hc]
    · simp [Op.apply, hc, hd]
  | some rs => simp [Op.apply, hc, Table.rules_set]

theorem attempt_edit (h : Overlay own A b base t) {op : Op M V X} (hchain : op.chain ∈ own) :
    Overlay own A b base (op.attempt t) := by
  unfold Op.attempt
  cases hop : op.apply t with
  | none => exact h
  | some u => exact h.edit hop hchain

/-- Emptying own chains. -/
theorem flushAll (h : Overlay own A b base t) {cs : List String} (hcs : ∀ c ∈ cs, c ∈ own) :
    Overlay own A b base (cs.foldl (fun t c => Op.attempt (.flush c) t) t) ∧
      ∀ d, (cs.foldl (fun t c => Op.attempt (.flush c) t) t).rules d =
        if d ∈ cs then (t.rules d).map fun _ => [] else t.rules d := by
  induction cs generalizing t with
  | nil => exact ⟨h, by simp⟩
  | cons c cs ih =>
    obtain ⟨hover, hrules⟩ := ih (h.attempt_edit (show (Op.flush c).chain ∈ own from hcs c (by simp)))
      fun d hd => hcs d (List.mem_cons_of_mem _ hd)
    refine ⟨hover, fun d => ?_⟩
    rw [List.foldl_cons, hrules, rules_attempt_flush]
    cases t.rules d <;> by_cases hd : d = c <;> simp [hd]

/-- Once no jump is left and the own chains are empty, an own chain can be deleted. -/
theorem rules_attempt_deleteChain (h : Overlay own (fun _ _ => False) b base t)
    (hempty : ∀ c ∈ own, ∀ rs, t.rules c = some rs → rs = []) {c : String} (hc : c ∈ own)
    (d : String) :
    (Op.attempt (.deleteChain c) t).rules d = if d = c then none else t.rules d := by
  unfold Op.attempt
  cases hrs : t.rules c with
  | none =>
    by_cases hd : d = c
    · subst hd
      simp [Op.apply, hrs]
    · simp [Op.apply, hrs, hd]
  | some rs =>
    cases hempty c hc rs hrs
    have hfree : t.referenced c = false := by
      refine Table.referenced_eq_false fun e rs he r hr => ?_
      by_contra hjump
      have hinto : r.jumpsInto own = true :=
        List.any_eq_true.mpr ⟨c, hc, by simpa using hjump⟩
      cases hbase : base.rules e with
      | some rs₀ =>
        obtain ⟨rs', hrs', hlaid⟩ := h.laid e rs₀ hbase
        rw [he, Option.some.injEq] at hrs'
        rw [hrs', hlaid.eq_base] at hr
        rw [hlaid.base_not_into hr] at hinto
        cases hinto
      | none =>
        have hown : e ∈ own := by
          by_contra hnot
          rw [h.rules_eq_none hnot hbase] at he
          cases he
        rw [hempty e hown rs he] at hr
        cases hr
    simp [Op.apply, hrs, hfree, Table.rules_removeChain]

/-- Deleting own chains that are empty and unreferenced. -/
theorem deleteAll (h : Overlay own (fun _ _ => False) b base t)
    (hempty : ∀ c ∈ own, ∀ rs, t.rules c = some rs → rs = []) {cs : List String}
    (hcs : ∀ c ∈ cs, c ∈ own) :
    Overlay own (fun _ _ => False) b base
        (cs.foldl (fun t c => Op.attempt (.deleteChain c) t) t) ∧
      ∀ d, (cs.foldl (fun t c => Op.attempt (.deleteChain c) t) t).rules d =
        if d ∈ cs then none else t.rules d := by
  induction cs generalizing t with
  | nil => exact ⟨h, by simp⟩
  | cons c cs ih =>
    have hc : c ∈ own := hcs c (by simp)
    have hone := rules_attempt_deleteChain h hempty hc
    have hempty' : ∀ d ∈ own, ∀ rs, (Op.attempt (.deleteChain c) t).rules d = some rs →
        rs = [] := by
      intro d hd rs hrs
      rw [hone] at hrs
      split at hrs
      · cases hrs
      · exact hempty d hd rs hrs
    obtain ⟨hover, hrules⟩ := ih (h.attempt_edit (show (Op.deleteChain c).chain ∈ own from hc))
      hempty' fun d hd => hcs d (List.mem_cons_of_mem _ hd)
    refine ⟨hover, fun d => ?_⟩
    rw [List.foldl_cons, hrules, hone]
    by_cases hd : d = c <;> simp [hd]

/-- **Emptying and then deleting the own chains** gives the base back, once no jump is
left. -/
theorem sweep (h : Overlay own (fun _ _ => False) b base t) :
    (own.map Op.flush ++ own.map Op.deleteChain).foldl (fun t op => Op.attempt op t) t = base := by
  rw [List.foldl_append, List.foldl_map, List.foldl_map]
  obtain ⟨hover, hrules⟩ := h.flushAll fun c hc => hc
  have hempty : ∀ c ∈ own, ∀ rs, (own.foldl (fun t c => Op.attempt (.flush c) t) t).rules c =
      some rs → rs = [] := by
    intro c hc rs hrs
    rw [hrules, if_pos hc] at hrs
    obtain ⟨rs', -, rfl⟩ := Option.map_eq_some_iff.mp hrs
    rfl
  obtain ⟨hover', hrules'⟩ := hover.deleteAll hempty fun c hc => hc
  refine hover'.eq_base fun c hc => ?_
  rw [hrules', if_pos hc]

end Overlay

end Netfilter
