import Mathlib.Data.List.Basic
import Mathlib.Data.List.Nodup
import Mathlib.Logic.Function.Basic
import Mathlib.Tactic

/-!
# Packet-filter tables: named chains of rules and the commands that edit them

A `Table` is a list of uniquely named chains, each an ordered list of rules.  An `Op`
is one edit of a table; `Op.apply` performs it, or answers `none` when the tool that
edits the table refuses it (a missing chain, a chain that already exists, a rule that
is not there, a chain that is not empty or still referenced).  A `Cmd` is an edit of
one table out of a family.

The lemma every proof about a chain's content goes through is
`rules_of_applyAll`: when a list of commands succeeds, the content of one chain is
the fold of the commands' effects on that chain (`Op.effect`), so a content is
computed from the commands that name the chain and from nothing else.
-/

set_option autoImplicit false

namespace Netfilter

/-- What a matching rule does: give a verdict, return to the calling chain, jump to
another chain, or run an extension that lets the packet continue with the next rule. -/
inductive Target (V X : Type)
  | verdict (v : V)
  | ret
  | jump (chain : String)
  | ext (x : X)
deriving DecidableEq, Repr

/-- A rule: the conditions it tests and its target. -/
structure Rule (M V X : Type) where
  conds : List M
  target : Target V X
deriving DecidableEq, Repr

variable {M V X : Type}

/-- The rule jumps to chain `c`. -/
def Rule.jumpsTo (c : String) (r : Rule M V X) : Bool :=
  match r.target with
  | .jump d => d == c
  | _ => false

/-- A table: chains in the order of their creation, no two of one name. -/
structure Table (M V X : Type) where
  chains : List (String × List (Rule M V X))
  nodup : (chains.map Prod.fst).Nodup
deriving DecidableEq

namespace Table

@[ext] theorem ext {t u : Table M V X} (h : t.chains = u.chains) : t = u := by
  cases t; cases u; cases h; rfl

/-- The names of the chains of a table. -/
def names (t : Table M V X) : List String := t.chains.map Prod.fst

/-- The content of a chain, `none` when there is no chain of that name. -/
def rules (t : Table M V X) (c : String) : Option (List (Rule M V X)) :=
  t.chains.lookup c

/-- Replace the content of chain `c`. -/
def set (t : Table M V X) (c : String) (rs : List (Rule M V X)) : Table M V X where
  chains := t.chains.map fun e => if e.1 = c then (e.1, rs) else e
  nodup := by
    have h : (t.chains.map fun e => if e.1 = c then (e.1, rs) else e).map Prod.fst =
        t.chains.map Prod.fst := by
      rw [List.map_map]
      refine List.map_congr_left fun e _ => ?_
      simp only [Function.comp]
      split <;> rfl
    rw [h]
    exact t.nodup

/-- Add an empty chain, unless the name is taken. -/
def newChain (t : Table M V X) (c : String) : Option (Table M V X) :=
  if h : c ∈ t.names then none
  else some {
    chains := t.chains ++ [(c, [])]
    nodup := by
      rw [List.map_append, List.nodup_append]
      refine ⟨t.nodup, by simp, ?_⟩
      intro a ha b hb hab
      simp only [List.map_cons, List.map_nil, List.mem_singleton] at hb
      exact h (hb ▸ hab ▸ ha) }

/-- Drop chain `c`. -/
def removeChain (t : Table M V X) (c : String) : Table M V X where
  chains := t.chains.filter fun e => e.1 != c
  nodup := t.nodup.sublist (List.Sublist.map _ List.filter_sublist)

/-- Some rule of the table jumps to chain `c`. -/
def referenced (t : Table M V X) (c : String) : Bool :=
  t.chains.any fun e => e.2.any (Rule.jumpsTo c)

/-- The chain a rule jumps to, if any, exists. -/
def jumpKnown (t : Table M V X) (r : Rule M V X) : Bool :=
  match r.target with
  | .jump d => d ∈ t.names
  | _ => true

/-- A lookup in a list of pairs whose values are all mapped by name. -/
private theorem lookup_map_set (l : List (String × List (Rule M V X))) (c d : String)
    (rs : List (Rule M V X)) :
    (l.map fun e => if e.1 = c then (e.1, rs) else e).lookup d =
      if d = c then (l.lookup d).map fun _ => rs else l.lookup d := by
  induction l with
  | nil => simp
  | cons e l ih =>
    obtain ⟨n, old⟩ := e
    by_cases hdn : d = n
    · subst hdn
      by_cases hc : d = c <;> simp [hc]
    · have hb : (d == n) = false := by simpa using hdn
      by_cases hnc : n = c
      · simp only [List.map_cons, hnc, if_true, List.lookup_cons]
        rw [hnc] at hb
        simp only [hb, ih]
      · simp only [List.map_cons, hnc, if_false, List.lookup_cons, hb, ih]

/-- Setting a chain changes that chain's content, if the chain exists, and no other. -/
theorem rules_set (t : Table M V X) (c d : String) (rs : List (Rule M V X)) :
    (t.set c rs).rules d = if d = c then (t.rules d).map fun _ => rs else t.rules d :=
  lookup_map_set t.chains c d rs

/-- A chain has a content exactly when its name is one of the table's names. -/
theorem rules_isSome (t : Table M V X) (c : String) :
    (t.rules c).isSome ↔ c ∈ t.names := by
  unfold rules names
  induction t.chains with
  | nil => simp
  | cons e l ih =>
    obtain ⟨n, rs⟩ := e
    by_cases h : c = n
    · simp [h]
    · have hb : (c == n) = false := by simpa using h
      simp only [List.lookup_cons, hb, List.map_cons, List.mem_cons, h, false_or]
      exact ih

/-- A chain without a content is not in the table. -/
theorem rules_eq_none (t : Table M V X) (c : String) : t.rules c = none ↔ c ∉ t.names := by
  rw [← rules_isSome, Option.not_isSome_iff_eq_none]

/-- A new chain is empty and leaves the other chains as they are. -/
theorem rules_newChain {t u : Table M V X} {c : String} (h : t.newChain c = some u)
    (d : String) : u.rules d = if d = c then some [] else t.rules d := by
  unfold newChain at h
  split at h
  · cases h
  · next hc =>
    cases h
    unfold rules
    simp only [List.lookup_append]
    by_cases hd : d = c
    · have hnone : t.chains.lookup c = none := (rules_eq_none t c).mpr hc
      simp [hd, hnone]
    · have hb : (d == c) = false := by simpa using hd
      simp [hd, hb, List.lookup_cons]

/-- Removing a chain removes that name only. -/
theorem rules_removeChain (t : Table M V X) (c d : String) :
    (t.removeChain c).rules d = if d = c then none else t.rules d := by
  unfold removeChain rules
  dsimp only
  induction t.chains with
  | nil => simp
  | cons e l ih =>
    obtain ⟨n, rs⟩ := e
    by_cases hn : n = c
    · subst hn
      by_cases hd : d = n
      · simpa [hd] using ih
      · have hb : (d == n) = false := by simpa using hd
        simpa [hd, hb, List.lookup_cons] using ih
    · by_cases hd : d = n
      · subst hd
        simp [hn]
      · have hb : (d == n) = false := by simpa using hd
        simpa [hn, hb, List.lookup_cons] using ih

theorem names_set (t : Table M V X) (c : String) (rs : List (Rule M V X)) :
    (t.set c rs).names = t.names := by
  unfold names set
  rw [List.map_map]
  refine List.map_congr_left fun e _ => ?_
  simp only [Function.comp]
  split <;> rfl

theorem names_newChain {t u : Table M V X} {c : String} (h : t.newChain c = some u) :
    u.names = t.names ++ [c] := by
  unfold newChain at h
  split at h
  · cases h
  · cases h
    simp [names]

theorem names_removeChain (t : Table M V X) (c : String) :
    (t.removeChain c).names = t.names.filter (· != c) := by
  unfold names removeChain
  rw [List.filter_map]
  rfl

/-- A table is its names and the contents of its chains. -/
theorem chains_eq (t : Table M V X) :
    t.chains = t.names.map fun c => (c, (t.rules c).getD []) := by
  have hall : ∀ l : List (String × List (Rule M V X)), (l.map Prod.fst).Nodup →
      l = (l.map Prod.fst).map fun c => (c, (l.lookup c).getD []) := by
    intro l
    induction l with
    | nil => simp
    | cons e l ih =>
      obtain ⟨n, rs⟩ := e
      intro hnodup
      rw [List.map_cons, List.nodup_cons] at hnodup
      have htail : (l.map Prod.fst).map (fun c => (c, (((n, rs) :: l).lookup c).getD [])) = l := by
        conv_rhs => rw [ih hnodup.2]
        refine List.map_congr_left fun c hc => ?_
        have hne : (c == n) = false := by
          rw [beq_eq_false_iff_ne]
          rintro rfl
          exact hnodup.1 hc
        rw [List.lookup_cons, hne]
      rw [List.map_cons, List.map_cons, htail]
      simp
  exact hall t.chains t.nodup

/-- Tables with the same names in the same order and the same contents are equal. -/
theorem eq_of_rules {t u : Table M V X} (hnames : t.names = u.names)
    (hrules : ∀ c, t.rules c = u.rules c) : t = u := by
  refine Table.ext ?_
  rw [t.chains_eq, u.chains_eq, hnames]
  simp only [hrules]

/-- A chain no rule jumps to is not referenced. -/
theorem referenced_eq_false {t : Table M V X} {c : String}
    (h : ∀ d rs, t.rules d = some rs → ∀ r ∈ rs, r.jumpsTo c = false) :
    t.referenced c = false := by
  unfold referenced
  rw [t.chains_eq, List.any_eq_false]
  intro e he
  obtain ⟨d, -, rfl⟩ := List.mem_map.mp he
  rw [Bool.not_eq_true, List.any_eq_false]
  intro r hr
  cases hrs : t.rules d with
  | none => simp [hrs] at hr
  | some rs =>
    rw [hrs] at hr
    simp [h d rs hrs r hr]

end Table

/-! ## Edits of one table -/

/-- An edit of a table. -/
inductive Op (M V X : Type)
  | newChain (c : String)
  | append (c : String) (r : Rule M V X)
  | insert (c : String) (pos : ℕ) (r : Rule M V X)
  | delete (c : String) (r : Rule M V X)
  | deleteNum (c : String) (pos : ℕ)
  | flush (c : String)
  | deleteChain (c : String)
deriving DecidableEq, Repr

namespace Op

/-- The chain an edit names. -/
def chain : Op M V X → String
  | .newChain c => c
  | .append c _ => c
  | .insert c _ _ => c
  | .delete c _ => c
  | .deleteNum c _ => c
  | .flush c => c
  | .deleteChain c => c

/-- The rule an edit mentions. -/
def rule : Op M V X → Option (Rule M V X)
  | .append _ r => some r
  | .insert _ _ r => some r
  | .delete _ r => some r
  | _ => none

/-- Rewrite the rule an edit mentions. -/
def mapRule (f : Rule M V X → Rule M V X) : Op M V X → Op M V X
  | .append c r => .append c (f r)
  | .insert c n r => .insert c n (f r)
  | .delete c r => .delete c (f r)
  | op => op

@[simp] theorem chain_mapRule (f : Rule M V X → Rule M V X) (op : Op M V X) :
    (op.mapRule f).chain = op.chain := by
  cases op <;> rfl

variable [DecidableEq M] [DecidableEq V] [DecidableEq X]

/-- Perform an edit: `none` when it is refused.  Positions count from zero. -/
def apply (op : Op M V X) (t : Table M V X) : Option (Table M V X) :=
  match op with
  | .newChain c => t.newChain c
  | .append c r =>
    match t.rules c with
    | some rs => if t.jumpKnown r then some (t.set c (rs ++ [r])) else none
    | none => none
  | .insert c n r =>
    match t.rules c with
    | some rs =>
      if t.jumpKnown r ∧ n ≤ rs.length then some (t.set c (rs.insertIdx n r)) else none
    | none => none
  | .delete c r =>
    match t.rules c with
    | some rs => if r ∈ rs then some (t.set c (rs.erase r)) else none
    | none => none
  | .deleteNum c n =>
    match t.rules c with
    | some rs => if n < rs.length then some (t.set c (rs.eraseIdx n)) else none
    | none => none
  | .flush c =>
    match t.rules c with
    | some _ => some (t.set c [])
    | none => none
  | .deleteChain c =>
    match t.rules c with
    | some [] => if t.referenced c then none else some (t.removeChain c)
    | _ => none

/-- What an edit that succeeds does to the content of the chain it names. -/
def effect (op : Op M V X) (o : Option (List (Rule M V X))) : Option (List (Rule M V X)) :=
  match op with
  | .newChain _ => some []
  | .append _ r => o.map (· ++ [r])
  | .insert _ n r => o.map (·.insertIdx n r)
  | .delete _ r => o.map (·.erase r)
  | .deleteNum _ n => o.map (·.eraseIdx n)
  | .flush _ => o.map fun _ => []
  | .deleteChain _ => none

/-- An edit that succeeds has its effect on the chain it names and leaves every other
chain as it was. -/
theorem rules_of_apply {op : Op M V X} {t u : Table M V X} (h : op.apply t = some u)
    (d : String) : u.rules d = if d = op.chain then op.effect (t.rules d) else t.rules d := by
  have hset : ∀ (c : String) (f : List (Rule M V X) → List (Rule M V X))
      (rs : List (Rule M V X)), t.rules c = some rs →
      (t.set c (f rs)).rules d = if d = c then (t.rules d).map f else t.rules d := by
    intro c f rs hrs
    rw [Table.rules_set]
    by_cases hd : d = c
    · subst hd
      simp [hrs]
    · simp [hd]
  cases op with
  | newChain c => exact Table.rules_newChain h d
  | append c r =>
    simp only [apply] at h
    split at h
    · next rs hrs =>
      split at h <;> cases h
      exact hset c (· ++ [r]) rs hrs
    · cases h
  | insert c n r =>
    simp only [apply] at h
    split at h
    · next rs hrs =>
      split at h <;> cases h
      exact hset c (·.insertIdx n r) rs hrs
    · cases h
  | delete c r =>
    simp only [apply] at h
    split at h
    · next rs hrs =>
      split at h <;> cases h
      exact hset c (·.erase r) rs hrs
    · cases h
  | deleteNum c n =>
    simp only [apply] at h
    split at h
    · next rs hrs =>
      split at h <;> cases h
      exact hset c (·.eraseIdx n) rs hrs
    · cases h
  | flush c =>
    simp only [apply] at h
    split at h
    · next rs hrs =>
      cases h
      exact hset c (fun _ => []) rs hrs
    · cases h
  | deleteChain c =>
    simp only [apply] at h
    split at h
    · split at h <;> cases h
      exact Table.rules_removeChain t c d
    · cases h

/-- What an edit that succeeds does to the names of the chains. -/
def effectNames (op : Op M V X) (names : List String) : List String :=
  match op with
  | .newChain c => names ++ [c]
  | .deleteChain c => names.filter (· != c)
  | _ => names

/-- The names after an edit that succeeds. -/
theorem names_of_apply {op : Op M V X} {t u : Table M V X} (h : op.apply t = some u) :
    u.names = op.effectNames t.names := by
  cases op <;> simp only [apply] at h
  case newChain c => exact Table.names_newChain h
  case flush c =>
    split at h <;> cases h
    exact Table.names_set _ _ _
  case deleteChain c =>
    split at h
    · split at h <;> cases h
      exact Table.names_removeChain _ _
    · cases h
  all_goals
    split at h
    · split at h <;> cases h
      exact Table.names_set _ _ _
    · cases h

/-- A command that may be refused, and then changes nothing. -/
def attempt (op : Op M V X) (t : Table M V X) : Table M V X := (op.apply t).getD t

/-- A rule that a successful deletion removes was in the chain. -/
theorem mem_of_apply_delete {c : String} {r : Rule M V X} {t u : Table M V X}
    (h : (Op.delete c r).apply t = some u) : ∃ rs, t.rules c = some rs ∧ r ∈ rs := by
  simp only [apply] at h
  split at h
  · next rs hrs =>
    split at h
    · next hr => exact ⟨rs, hrs, hr⟩
    · cases h
  · cases h

/-- Deleting by its number the rule that was inserted there undoes the insertion. -/
theorem deleteNum_of_insert {c : String} {n : ℕ} {r : Rule M V X} {t u : Table M V X}
    (h : (Op.insert c n r).apply t = some u) : (Op.deleteNum c n).apply u = some t := by
  have hrules := rules_of_apply h
  have hnames := names_of_apply h
  simp only [apply] at h
  split at h
  · next rs hrs =>
    split at h
    · next hpos =>
      have hc : u.rules c = some (rs.insertIdx n r) := by
        rw [hrules]
        simp [chain, effect, hrs]
      have hlt : n < (rs.insertIdx n r).length := by
        rw [List.length_insertIdx_of_le_length hpos.2]
        omega
      have hback : u.set c ((rs.insertIdx n r).eraseIdx n) = t := by
        refine Table.eq_of_rules ?_ fun d => ?_
        · rw [Table.names_set]
          exact hnames
        · rw [Table.rules_set, List.eraseIdx_insertIdx_self]
          by_cases hd : d = c
          · subst hd
            simp [hc, hrs]
          · rw [if_neg hd, hrules]
            exact if_neg hd
      simp only [apply, hc, hlt, if_true, hback]
    · cases h
  · cases h

/-- The chain an edit of a rule names exists. -/
theorem isSome_of_apply {op : Op M V X} {t u : Table M V X} (h : op.apply t = some u)
    (hrule : op.rule.isSome) : (t.rules op.chain).isSome := by
  cases op <;> simp only [apply] at h <;> try cases hrule
  all_goals
    split at h
    · next hrs => simp [chain, hrs]
    · cases h

/-- An edit that adds a rule or removes a given one changes the content of its chain. -/
theorem effect_ne_of_apply {op : Op M V X} {t u : Table M V X} (h : op.apply t = some u)
    (hrule : op.rule.isSome) : op.effect (t.rules op.chain) ≠ t.rules op.chain := by
  have hlength : ∀ {rs rs' : List (Rule M V X)}, rs'.length ≠ rs.length → some rs' ≠ some rs :=
    fun hne heq => hne (congrArg List.length (Option.some.inj heq))
  cases op with
  | append c r =>
    simp only [apply] at h
    split at h
    · next rs hrs =>
      simp only [effect, chain, hrs, Option.map_some]
      exact hlength (by simp)
    · cases h
  | insert c n r =>
    simp only [apply] at h
    split at h
    · next rs hrs =>
      split at h
      · next hpos =>
        simp only [effect, chain, hrs, Option.map_some]
        exact hlength (by simp [List.length_insertIdx_of_le_length hpos.2])
      · cases h
    · cases h
  | delete c r =>
    obtain ⟨rs, hrs, hr⟩ := mem_of_apply_delete h
    have hpos : 0 < rs.length := List.length_pos_of_mem hr
    simp only [effect, chain, hrs, Option.map_some]
    exact hlength (by rw [List.length_erase_of_mem hr]; omega)
  | newChain c => cases hrule
  | deleteNum c n => cases hrule
  | flush c => cases hrule
  | deleteChain c => cases hrule

end Op

/-! ## Edits of a family of tables -/

/-- An edit of table `table`. -/
structure Cmd (K M V X : Type) where
  table : K
  op : Op M V X
deriving DecidableEq, Repr

/-- Rewrite the rule a command mentions. -/
def Cmd.mapRule {K : Type} (f : Rule M V X → Rule M V X) (cmd : Cmd K M V X) : Cmd K M V X :=
  { cmd with op := cmd.op.mapRule f }

/-- A family of tables. -/
abbrev Tables (K M V X : Type) := K → Table M V X

namespace Cmd

variable {K : Type} [DecidableEq K]

/-- The command names chain `c` of table `k`. -/
def onChain (k : K) (c : String) (cmd : Cmd K M V X) : Bool :=
  decide (cmd.table = k) && decide (cmd.op.chain = c)

theorem onChain_eq_false {k : K} {c : String} {cmd : Cmd K M V X} :
    onChain k c cmd = false ↔ ¬(cmd.table = k ∧ cmd.op.chain = c) := by
  unfold onChain
  rw [← Bool.decide_and, decide_eq_false_iff_not]

variable [DecidableEq M] [DecidableEq V] [DecidableEq X]

/-- Perform an edit on its table. -/
def apply (c : Cmd K M V X) (ts : Tables K M V X) : Option (Tables K M V X) :=
  (c.op.apply (ts c.table)).map fun t => Function.update ts c.table t

/-- Perform a list of commands, all of which must succeed. -/
def applyAll (cs : List (Cmd K M V X)) (ts : Tables K M V X) : Option (Tables K M V X) :=
  cs.foldlM (fun ts c => c.apply ts) ts

/-- The content a chain has after commands that all succeed, computed from its content
before and from the commands that name it. -/
def replay (k : K) (c : String) (cs : List (Cmd K M V X))
    (o : Option (List (Rule M V X))) : Option (List (Rule M V X)) :=
  (cs.filter (onChain k c)).foldl (fun o cmd => cmd.op.effect o) o

@[simp] theorem replay_nil (k : K) (c : String) (o : Option (List (Rule M V X))) :
    replay k c ([] : List (Cmd K M V X)) o = o := rfl

theorem replay_cons (k : K) (c : String) (cmd : Cmd K M V X) (cs : List (Cmd K M V X))
    (o : Option (List (Rule M V X))) :
    replay k c (cmd :: cs) o =
      replay k c cs (if onChain k c cmd then cmd.op.effect o else o) := by
  unfold replay
  rw [List.filter_cons]
  split <;> simp

@[simp] theorem replay_append (k : K) (c : String) (cs ds : List (Cmd K M V X))
    (o : Option (List (Rule M V X))) :
    replay k c (cs ++ ds) o = replay k c ds (replay k c cs o) := by
  simp [replay]

/-- Commands none of which names the chain leave its content alone. -/
theorem replay_of_forall_not {k : K} {c : String} {cs : List (Cmd K M V X)}
    (h : ∀ cmd ∈ cs, onChain k c cmd = false) (o : Option (List (Rule M V X))) :
    replay k c cs o = o := by
  have hf : cs.filter (onChain k c) = [] :=
    List.filter_eq_nil_iff.mpr fun cmd hcmd => by simp [h cmd hcmd]
  simp [replay, hf]

/-- A list of appends to one chain adds their rules at its end, in order, and leaves the
other chains alone. -/
theorem replay_map_append {α : Type} (k k' : K) (c c' : String) (f : α → Rule M V X)
    (l : List α) (o : Option (List (Rule M V X))) :
    replay k c (l.map fun a => (⟨k', .append c' (f a)⟩ : Cmd K M V X)) o =
      if k' = k ∧ c' = c then o.map (· ++ l.map f) else o := by
  induction l generalizing o with
  | nil => cases o <;> simp
  | cons a l ih =>
    rw [List.map_cons, replay_cons, ih]
    by_cases h : k' = k ∧ c' = c
    · cases o <;> simp [onChain, Op.chain, Op.effect, h]
    · have hb : onChain k c (⟨k', .append c' (f a)⟩ : Cmd K M V X) = false :=
        onChain_eq_false.mpr h
      simp [hb, h]

/-- A list of insertions at the head of one chain leaves their rules there, the last
one first, and leaves the other chains alone. -/
theorem replay_map_insert_zero {α : Type} (k k' : K) (c c' : String) (f : α → Rule M V X)
    (l : List α) (o : Option (List (Rule M V X))) :
    replay k c (l.map fun a => (⟨k', .insert c' 0 (f a)⟩ : Cmd K M V X)) o =
      if k' = k ∧ c' = c then o.map ((l.map f).reverse ++ ·) else o := by
  induction l generalizing o with
  | nil => cases o <;> simp
  | cons a l ih =>
    rw [List.map_cons, replay_cons, ih]
    by_cases h : k' = k ∧ c' = c
    · cases o <;> simp [onChain, Op.chain, Op.effect, h]
    · have hb : onChain k c (⟨k', .insert c' 0 (f a)⟩ : Cmd K M V X) = false :=
        onChain_eq_false.mpr h
      simp [hb, h]

/-- A command that succeeds has its effect on the chain it names and on no other. -/
theorem rules_of_apply {cmd : Cmd K M V X} {ts us : Tables K M V X}
    (h : cmd.apply ts = some us) (k : K) (c : String) :
    (us k).rules c =
      if onChain k c cmd then cmd.op.effect ((ts k).rules c) else (ts k).rules c := by
  unfold apply at h
  obtain ⟨t, ht, rfl⟩ := Option.map_eq_some_iff.mp h
  by_cases hk : cmd.table = k
  · subst hk
    simp only [Function.update_self, onChain, decide_true, Bool.true_and]
    rw [Op.rules_of_apply ht]
    simp [eq_comm]
  · simp [Function.update_of_ne (Ne.symm hk), onChain, hk]

/-- **The content of a chain after a successful list of commands** is the replay of the
commands that name it. -/
theorem rules_of_applyAll {cs : List (Cmd K M V X)} {ts us : Tables K M V X}
    (h : applyAll cs ts = some us) (k : K) (c : String) :
    (us k).rules c = replay k c cs ((ts k).rules c) := by
  induction cs generalizing ts with
  | nil =>
    cases h
    rfl
  | cons cmd cs ih =>
    simp only [applyAll, List.foldlM_cons, Option.bind_eq_bind, Option.bind_eq_some_iff] at h
    obtain ⟨ms, hms, hrest⟩ := h
    rw [ih hrest, replay_cons, rules_of_apply hms]

/-- A successful list of commands, cut at one of them. -/
theorem applyAll_append_cons {cs ds : List (Cmd K M V X)} {cmd : Cmd K M V X}
    {ts us : Tables K M V X} (h : applyAll (cs ++ cmd :: ds) ts = some us) :
    ∃ ms ns, applyAll cs ts = some ms ∧ cmd.apply ms = some ns ∧ applyAll ds ns = some us := by
  simp only [applyAll, List.foldlM_append, List.foldlM_cons, Option.bind_eq_bind,
    Option.bind_eq_some_iff] at h
  obtain ⟨ms, hms, ns, hns, hds⟩ := h
  exact ⟨ms, ns, hms, hns, hds⟩

/-- A chain into which a rule is inserted exists. -/
theorem isSome_of_apply_insert {k : K} {c : String} {n : ℕ} {r : Rule M V X}
    {ts us : Tables K M V X} (h : (⟨k, .insert c n r⟩ : Cmd K M V X).apply ts = some us) :
    ((ts k).rules c).isSome := by
  unfold apply at h
  obtain ⟨t, ht, -⟩ := Option.map_eq_some_iff.mp h
  simp only [Op.apply] at ht
  split at ht
  · next rs hrs => simp [hrs]
  · cases ht

end Cmd

end Netfilter
