import WifiCat.Library.Netfilter.Table

/-!
# What a packet meets on its way through a chain

`walk` takes a packet through a list of rules: a rule whose conditions all hold acts,
the others are passed over.  A verdict ends the traversal, a return ends the chain, a
jump runs another chain and goes on when that one gives no verdict, and an extension
changes the packet and goes on.  `runChain` follows jumps to a given depth.

The lemmas give the outcome of the shapes of chain a program builds: a concatenation
(`walk_append`), a block of extensions (`walk_of_ext`), a block of returns in front of
something (`walk_returns_append`) and a first-match list of verdicts among extensions
that leave the packet alone (`walk_firstMatch`).
-/

set_option autoImplicit false

namespace Netfilter

variable {M V X P : Type}

/-- How packets are read: which conditions a packet satisfies, and what an extension
does to it. -/
structure Semantics (M X P : Type) where
  sat : M → P → Bool
  run : X → P → P

/-- How the traversal of a list of rules ends: with a verdict, by a return rule, or
at the end of the list. -/
inductive Outcome (V P : Type)
  | decided (v : V) (p : P)
  | returned (p : P)
  | fell (p : P)
deriving DecidableEq, Repr

/-- The packet as the traversal leaves it. -/
def Outcome.packet : Outcome V P → P
  | .decided _ p => p
  | .returned p => p
  | .fell p => p

/-- The verdict, if the traversal gave one. -/
def Outcome.verdict : Outcome V P → Option V
  | .decided v _ => some v
  | _ => none

@[simp] theorem Outcome.packet_decided (v : V) (p : P) :
    (Outcome.decided v p).packet = p := rfl
@[simp] theorem Outcome.packet_returned (p : P) :
    (Outcome.returned p : Outcome V P).packet = p := rfl
@[simp] theorem Outcome.packet_fell (p : P) :
    (Outcome.fell p : Outcome V P).packet = p := rfl
@[simp] theorem Outcome.verdict_decided (v : V) (p : P) :
    (Outcome.decided v p).verdict = some v := rfl
@[simp] theorem Outcome.verdict_returned (p : P) :
    (Outcome.returned p : Outcome V P).verdict = none := rfl
@[simp] theorem Outcome.verdict_fell (p : P) :
    (Outcome.fell p : Outcome V P).verdict = none := rfl

/-- All conditions of the rule hold of the packet. -/
def Rule.matches (S : Semantics M X P) (r : Rule M V X) (p : P) : Bool :=
  r.conds.all fun m => S.sat m p

/-- What an extension rule leaves of the packet. -/
def Rule.fire (S : Semantics M X P) (r : Rule M V X) (p : P) : P :=
  if r.matches S p then
    match r.target with
    | .ext x => S.run x p
    | _ => p
  else p

/-- Take a packet through a list of rules; `call` runs the chain a jump names. -/
def walk (S : Semantics M X P) (call : String → P → Outcome V P) :
    List (Rule M V X) → P → Outcome V P
  | [], p => .fell p
  | r :: rs, p =>
    if r.matches S p then
      match r.target with
      | .verdict v => .decided v p
      | .ret => .returned p
      | .ext x => walk S call rs (S.run x p)
      | .jump c =>
        match call c p with
        | .decided v q => .decided v q
        | .returned q => walk S call rs q
        | .fell q => walk S call rs q
    else walk S call rs p

/-- Run chain `c` of table `t`, following jumps to depth `n`. -/
def runChain (S : Semantics M X P) (t : Table M V X) : ℕ → String → P → Outcome V P
  | 0, _, p => .fell p
  | n + 1, c, p => walk S (runChain S t n) ((t.rules c).getD []) p

section Lemmas

variable (S : Semantics M X P) (call : String → P → Outcome V P)

@[simp] theorem walk_nil (p : P) : walk S call ([] : List (Rule M V X)) p = .fell p := rfl

/-- A rule that does not match is passed over. -/
theorem walk_cons_of_not_matches {r : Rule M V X} {p : P} (h : r.matches S p = false)
    (rs : List (Rule M V X)) : walk S call (r :: rs) p = walk S call rs p := by
  simp [walk, h]

/-- **Concatenation**: what follows is reached exactly when the first part is fallen
through. -/
theorem walk_append (rs rs' : List (Rule M V X)) (p : P) :
    walk S call (rs ++ rs') p =
      match walk S call rs p with
      | .decided v q => .decided v q
      | .returned q => .returned q
      | .fell q => walk S call rs' q := by
  induction rs generalizing p with
  | nil => rfl
  | cons r rs ih =>
    simp only [List.cons_append, walk]
    split
    · split
      · rfl
      · rfl
      · exact ih _
      · split
        · rfl
        · exact ih _
        · exact ih _
    · exact ih p

/-- **A block of extensions** is fallen through; the packet is what its rules, fired in
order, leave of it. -/
theorem walk_of_ext {rs : List (Rule M V X)} (h : ∀ r ∈ rs, ∃ x, r.target = .ext x) (p : P) :
    walk S call rs p = .fell (rs.foldl (fun p r => r.fire S p) p) := by
  induction rs generalizing p with
  | nil => rfl
  | cons r rs ih =>
    obtain ⟨x, hx⟩ := h r (by simp)
    have ih' := ih fun r' hr' => h r' (List.mem_cons_of_mem _ hr')
    simp only [walk, List.foldl_cons, Rule.fire, hx]
    split <;> exact ih' _

/-- **A block of returns** in front of other rules: the first return that matches ends
the chain. -/
theorem walk_returns_append {rs : List (Rule M V X)} (h : ∀ r ∈ rs, r.target = .ret)
    (rs' : List (Rule M V X)) (p : P) :
    walk S call (rs ++ rs') p =
      if rs.any (fun r => r.matches S p) then .returned p else walk S call rs' p := by
  induction rs with
  | nil => simp
  | cons r rs ih =>
    have hr := h r (by simp)
    have ih' := ih fun r' hr' => h r' (List.mem_cons_of_mem _ hr')
    simp only [List.cons_append, walk, hr, List.any_cons]
    by_cases hm : r.matches S p
    · simp [hm]
    · simp only [hm, Bool.false_eq_true, if_false, Bool.false_or]
      exact ih'

/-- The verdict of a rule that decides a packet: it matches and its target is a verdict. -/
def Rule.decides (S : Semantics M X P) (p : P) (r : Rule M V X) : Option V :=
  if r.matches S p then
    match r.target with
    | .verdict v => some v
    | _ => none
  else none

/-- **First match**: among rules that decide, or log and leave the packet alone, the
first deciding one gives the verdict. -/
theorem walk_firstMatch {rs : List (Rule M V X)} {p : P}
    (h : ∀ r ∈ rs, (∃ v, r.target = .verdict v) ∨ ∃ x, r.target = .ext x ∧ S.run x p = p) :
    walk S call rs p =
      match rs.findSome? (Rule.decides S p) with
      | some v => .decided v p
      | none => .fell p := by
  induction rs with
  | nil => rfl
  | cons r rs ih =>
    have ih' := ih fun r' hr' => h r' (List.mem_cons_of_mem _ hr')
    by_cases hm : r.matches S p
    · rcases h r (by simp) with ⟨v, hv⟩ | ⟨x, hx, hrun⟩
      · simp [walk, hm, hv, Rule.decides]
      · simp only [walk, hm, hx, if_true, hrun, List.findSome?_cons, Rule.decides]
        exact ih'
    · simp only [walk, hm, Bool.false_eq_true, if_false, List.findSome?_cons, Rule.decides]
      exact ih'

end Lemmas

end Netfilter
