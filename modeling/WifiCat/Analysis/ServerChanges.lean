import WifiCat.Library.Absorption
import WifiCat.Analysis.MacAddresses
import WifiCat.Analysis.ServerDocument

/-!
# The single changes a document makes

What a document does to the configuration is a run of single changes (`ServerOp`): the texts
and numbers it assigns, of which the last one for a key counts, and the addresses it adds, of
which the first one counts.  Such a run does the same twice as once (`applyPairs_twice`).
-/

set_option autoImplicit false

namespace WifiCat.Analysis

open Scan WifiCat

/-! ## Single changes -/

/-- A single change of the configuration. -/
inductive ServerOp
  | text (key : TextKey) (value : Text)
  | number (key : NumberKey) (n : ℤ)
  | freeIp (possibleip : Text)
  | mac (l : MacListName) (possiblemac : Text)

/-- Make a change. -/
def ServerOp.run (c : ServerConfig) : ServerOp → ServerConfig
  | .text key value => key.assign value c
  | .number key n => key.assign n c
  | .freeIp possibleip => { c with toConfig := (addToFreeIpList possibleip c.toConfig).2 }
  | .mac l possiblemac => { c with toConfig := (addToMacList l possiblemac c.toConfig).2 }

/-- The change is an assignment. -/
def ServerOp.assigns : ServerOp → Bool
  | .text _ _ => true
  | .number _ _ => true
  | .freeIp _ => false
  | .mac _ _ => false

theorem textAssign_same (key : TextKey) (v v' : Text) (c : ServerConfig) :
    key.assign v' (key.assign v c) = key.assign v' c := by
  cases key <;> simp [TextKey.assign]

theorem textAssign_swap {key key' : TextKey} (h : key ≠ key') (v v' : Text) (c : ServerConfig) :
    key'.assign v' (key.assign v c) = key.assign v (key'.assign v' c) := by
  cases key <;> cases key' <;>
    first
    | exact absurd rfl h
    | simp [TextKey.assign, Function.update_comm h]

theorem numberAssign_same (key : NumberKey) (n n' : ℤ) (c : ServerConfig) :
    key.assign n' (key.assign n c) = key.assign n' c := by
  cases key <;> rfl

theorem numberAssign_swap {key key' : NumberKey} (h : key ≠ key') (n n' : ℤ) (c : ServerConfig) :
    key'.assign n' (key.assign n c) = key.assign n (key'.assign n' c) := by
  cases key <;> cases key' <;>
    first
    | exact absurd rfl h
    | rfl

theorem text_number_swap (key : TextKey) (key' : NumberKey) (v : Text) (n : ℤ)
    (c : ServerConfig) : key'.assign n (key.assign v c) = key.assign v (key'.assign n c) := by
  cases key <;> cases key' <;> rfl

/-! ## The lists -/

/-- There is nothing to add: the address is refused, or it is there already. -/
def IpSettled (possibleip : Text) (config : Config) : Prop :=
  checkIpFormat possibleip = false ∨ possibleip.take 15 ∈ config.freeIpList

/-- There is nothing to add: the address is refused, the list is not in use, or the address is
there already. -/
def MacSettled (l : MacListName) (possiblemac : Text) (config : Config) : Prop :=
  checkMacFormat possiblemac = false ∨ config.usesList l = false ∨
    (config.maclist l).any (sameCase · (macCopy possiblemac)) = true

theorem addToFreeIpList_cases (possibleip : Text) (config : Config) :
    (IpSettled possibleip config ∧ (addToFreeIpList possibleip config).2 = config) ∨
    (¬IpSettled possibleip config ∧ (addToFreeIpList possibleip config).2 =
      { config with freeIpList := possibleip.take 15 :: config.freeIpList }) := by
  unfold addToFreeIpList IpSettled
  dsimp only
  cases checkIpFormat possibleip with
  | false => exact .inl ⟨.inl rfl, rfl⟩
  | true =>
    rw [if_neg (by decide)]
    by_cases hmem : possibleip.take 15 ∈ config.freeIpList
    · rw [if_pos hmem]
      exact .inl ⟨.inr hmem, rfl⟩
    · rw [if_neg hmem]
      exact .inr ⟨by simpa using hmem, rfl⟩

theorem addMac_cases (l : MacListName) (possiblemac : Text) (config : Config) :
    (MacSettled l possiblemac config ∧ (addToMacList l possiblemac config).2 = config) ∨
    (¬MacSettled l possiblemac config ∧ (addToMacList l possiblemac config).2 =
      config.setMaclist l (macCopy possiblemac :: config.maclist l)) := by
  unfold MacSettled
  rw [List.any_eq_true]
  rcases addToMacList_outcomes l possiblemac config with
    ⟨hformat, h⟩ | ⟨huses, h⟩ | ⟨-, -, hlisted, h⟩ | ⟨hformat, huses, hnot, h⟩
  · exact .inl ⟨.inl hformat, congrArg Prod.snd h⟩
  · exact .inl ⟨.inr (.inl huses), congrArg Prod.snd h⟩
  · exact .inl ⟨.inr (.inr hlisted), congrArg Prod.snd h⟩
  · refine .inr ⟨?_, congrArg Prod.snd h⟩
    rintro (hno | hno | hlisted)
    · rw [hformat] at hno
      cases hno
    · rw [huses] at hno
      cases hno
    · exact hnot hlisted

/-- What is added is settled. -/
theorem ipSettled_add (possibleip : Text) (config : Config) :
    IpSettled possibleip (addToFreeIpList possibleip config).2 := by
  rcases addToFreeIpList_cases possibleip config with ⟨hsettled, heq⟩ | ⟨-, heq⟩
  · rw [heq]
    exact hsettled
  · rw [heq]
    exact .inr List.mem_cons_self

theorem macSettled_add (l : MacListName) (possiblemac : Text) (config : Config) :
    MacSettled l possiblemac (addToMacList l possiblemac config).2 := by
  rcases addMac_cases l possiblemac config with ⟨hsettled, heq⟩ | ⟨-, heq⟩
  · rw [heq]
    exact hsettled
  · rw [heq]
    refine .inr (.inr ?_)
    simp [Config.setMaclist, sameCase]

/-- What is settled stays so when another address is added. -/
theorem IpSettled.add {possibleip : Text} {config : Config} (h : IpSettled possibleip config)
    (possibleip' : Text) : IpSettled possibleip (addToFreeIpList possibleip' config).2 := by
  rcases addToFreeIpList_cases possibleip' config with ⟨-, heq⟩ | ⟨-, heq⟩
  · rw [heq]
    exact h
  · rw [heq]
    exact h.imp_right (List.mem_cons_of_mem _)

theorem MacSettled.add {l : MacListName} {possiblemac : Text} {config : Config}
    (h : MacSettled l possiblemac config) (l' : MacListName) (possiblemac' : Text) :
    MacSettled l possiblemac (addToMacList l' possiblemac' config).2 := by
  rcases addMac_cases l' possiblemac' config with ⟨-, heq⟩ | ⟨-, heq⟩
  · rw [heq]
    exact h
  · rw [heq]
    refine h.imp_right (Or.imp_right fun hany => ?_)
    by_cases hl : l = l'
    · subst hl
      simp only [Config.setMaclist, Function.update_self, List.any_cons, hany, Bool.or_true]
    · simp only [Config.setMaclist, Function.update_of_ne hl, hany]

/-- A change does nothing when it is settled, and it is not when it does something. -/
theorem still_freeIp_iff (possibleip : Text) (c : ServerConfig) :
    Absorption.Still ServerOp.run (.freeIp possibleip) c ↔ IpSettled possibleip c.toConfig := by
  rcases addToFreeIpList_cases possibleip c.toConfig with ⟨hsettled, heq⟩ | ⟨hnot, heq⟩
  · exact iff_of_true (by simp only [Absorption.Still, ServerOp.run, heq]) hsettled
  · refine iff_of_false (fun hstill => ?_) hnot
    simp only [Absorption.Still, ServerOp.run, heq] at hstill
    have hlist := congrArg (fun c => c.toConfig.freeIpList) hstill
    exact List.cons_ne_self _ _ hlist

theorem still_mac_iff (l : MacListName) (possiblemac : Text) (c : ServerConfig) :
    Absorption.Still ServerOp.run (.mac l possiblemac) c ↔
      MacSettled l possiblemac c.toConfig := by
  rcases addMac_cases l possiblemac c.toConfig with ⟨hsettled, heq⟩ | ⟨hnot, heq⟩
  · exact iff_of_true (by simp only [Absorption.Still, ServerOp.run, heq]) hsettled
  · refine iff_of_false (fun hstill => ?_) hnot
    simp only [Absorption.Still, ServerOp.run, heq] at hstill
    have hlist := congrFun (congrArg (fun c => c.toConfig.maclist) hstill) l
    simp only [Config.setMaclist, Function.update_self] at hlist
    exact List.cons_ne_self _ _ hlist

/-! ## Runs of changes -/

/-- A change has nothing to do behind itself. -/
theorem still_run (op : ServerOp) (c : ServerConfig) :
    Absorption.Still ServerOp.run op (ServerOp.run c op) := by
  cases op with
  | text key value => exact textAssign_same key value value c
  | number key n => exact numberAssign_same key n n c
  | freeIp possibleip => exact (still_freeIp_iff _ _).mpr (ipSettled_add possibleip c.toConfig)
  | mac l possiblemac => exact (still_mac_iff _ _ _).mpr (macSettled_add l possiblemac c.toConfig)

theorem overwrites_of_assigns (op op' : ServerOp) (h : op.assigns = true)
    (h' : op'.assigns = true) : Absorption.Overwrites ServerOp.run op op' := by
  cases op with
  | text key value =>
    cases op' with
    | text key' value' =>
      by_cases hkey : key = key'
      · subst hkey
        exact .inl (textAssign_same key value value')
      · exact .inr (textAssign_swap hkey value value')
    | number key' n => exact .inr (text_number_swap key key' value n)
    | freeIp _ => cases h'
    | mac _ _ => cases h'
  | number key n =>
    cases op' with
    | text key' value => exact .inr fun c => (text_number_swap key' key value n c).symm
    | number key' n' =>
      by_cases hkey : key = key'
      · subst hkey
        exact .inl (numberAssign_same key n n')
      · exact .inr (numberAssign_swap hkey n n')
    | freeIp _ => cases h'
    | mac _ _ => cases h'
  | freeIp _ => cases h
  | mac _ _ => cases h

/-- What is settled stays so when an address is added to another list. -/
theorem still_add (op op' : ServerOp) (h : op.assigns = false) (h' : op'.assigns = false)
    (c : ServerConfig) (hstill : Absorption.Still ServerOp.run op c) :
    Absorption.Still ServerOp.run op (ServerOp.run c op') := by
  cases op with
  | text _ _ => cases h
  | number _ _ => cases h
  | freeIp possibleip =>
    rw [still_freeIp_iff] at hstill ⊢
    cases op' with
    | text _ _ => cases h'
    | number _ _ => cases h'
    | freeIp possibleip' => exact hstill.add possibleip'
    | mac l possiblemac =>
      rcases addMac_cases l possiblemac c.toConfig with ⟨-, heq⟩ | ⟨-, heq⟩
      · simp only [ServerOp.run, heq]
        exact hstill
      · simp only [ServerOp.run, heq]
        exact hstill
  | mac l possiblemac =>
    rw [still_mac_iff] at hstill ⊢
    cases op' with
    | text _ _ => cases h'
    | number _ _ => cases h'
    | freeIp possibleip =>
      rcases addToFreeIpList_cases possibleip c.toConfig with ⟨-, heq⟩ | ⟨-, heq⟩
      · simp only [ServerOp.run, heq]
        exact hstill
      · simp only [ServerOp.run, heq]
        exact hstill
    | mac l' possiblemac' => exact hstill.add l' possiblemac'

theorem number_freeIp_swap (key : NumberKey) (n : ℤ) (possibleip : Text) (c : ServerConfig) :
    ServerOp.run (ServerOp.run c (.freeIp possibleip)) (.number key n) =
      ServerOp.run (ServerOp.run c (.number key n)) (.freeIp possibleip) := by
  have hsame : IpSettled possibleip (key.assign n c).toConfig ↔ IpSettled possibleip c.toConfig := by
    cases key <;> exact Iff.rfl
  simp only [ServerOp.run]
  rcases addToFreeIpList_cases possibleip c.toConfig with ⟨h, heq⟩ | ⟨h, heq⟩
  · rcases addToFreeIpList_cases possibleip (key.assign n c).toConfig with ⟨-, heq'⟩ | ⟨h', -⟩
    · rw [heq, heq']
    · exact absurd (hsame.mpr h) h'
  · rcases addToFreeIpList_cases possibleip (key.assign n c).toConfig with ⟨h', -⟩ | ⟨-, heq'⟩
    · exact absurd (hsame.mp h') h
    · rw [heq, heq']
      cases key <;> rfl

theorem number_mac_swap (key : NumberKey) (n : ℤ) (l : MacListName) (possiblemac : Text)
    (c : ServerConfig) :
    ServerOp.run (ServerOp.run c (.mac l possiblemac)) (.number key n) =
      ServerOp.run (ServerOp.run c (.number key n)) (.mac l possiblemac) := by
  have hsame : MacSettled l possiblemac (key.assign n c).toConfig ↔
      MacSettled l possiblemac c.toConfig := by
    cases key <;> exact Iff.rfl
  simp only [ServerOp.run]
  rcases addMac_cases l possiblemac c.toConfig with ⟨h, heq⟩ | ⟨h, heq⟩
  · rcases addMac_cases l possiblemac (key.assign n c).toConfig with ⟨-, heq'⟩ | ⟨h', -⟩
    · rw [heq, heq']
    · exact absurd (hsame.mpr h) h'
  · rcases addMac_cases l possiblemac (key.assign n c).toConfig with ⟨h', -⟩ | ⟨-, heq'⟩
    · exact absurd (hsame.mp h') h
    · rw [heq, heq']
      cases key <;> rfl

theorem text_config_swap (key : TextKey) (value : Text) (f : Config → Config) (c : ServerConfig) :
    key.assign value { c with toConfig := f c.toConfig } =
      { key.assign value c with toConfig := f (key.assign value c).toConfig } := by
  cases key <;> rfl

/-- Assignments and additions do not interfere. -/
theorem assign_add_swap (op op' : ServerOp) (h : op.assigns = true) (h' : op'.assigns = false)
    (c : ServerConfig) :
    ServerOp.run (ServerOp.run c op') op = ServerOp.run (ServerOp.run c op) op' := by
  cases op' with
  | text _ _ => cases h'
  | number _ _ => cases h'
  | freeIp possibleip =>
    cases op with
    | text key value =>
      exact text_config_swap key value (fun config => (addToFreeIpList possibleip config).2) c
    | number key n => exact number_freeIp_swap key n possibleip c
    | freeIp _ => cases h
    | mac _ _ => cases h
  | mac l possiblemac =>
    cases op with
    | text key value =>
      exact text_config_swap key value (fun config => (addToMacList l possiblemac config).2) c
    | number key n => exact number_mac_swap key n l possiblemac c
    | freeIp _ => cases h
    | mac _ _ => cases h

/-- A run of changes does the same twice as once. -/
theorem run_twice (ops : List ServerOp) (c : ServerConfig) :
    ops.foldl ServerOp.run (ops.foldl ServerOp.run c) = ops.foldl ServerOp.run c :=
  Absorption.foldl_twice ServerOp.assigns still_run overwrites_of_assigns still_add
    assign_add_swap ops c

/-! ## Pairs as changes -/

/-- What is done to the configuration is a run of changes, which depends on how many names have
been looked up and on nothing else. -/
def IsRun (F : Applied → Applied) : Prop :=
  ∀ k, ∃ (ops : List ServerOp) (k' : ℕ), ∀ c,
    F { config := c, lookups := k } = { config := ops.foldl ServerOp.run c, lookups := k' }

theorem isRun_foldl {α : Type} {F : Applied → α → Applied} (h : ∀ x, IsRun fun a => F a x)
    (xs : List α) : IsRun fun a => xs.foldl F a := by
  induction xs with
  | nil => exact fun k => ⟨[], k, fun _ => rfl⟩
  | cons x xs ih =>
    intro k
    obtain ⟨ops, k₁, hhead⟩ := h x k
    obtain ⟨ops', k₂, htail⟩ := ih k₁
    refine ⟨ops ++ ops', k₂, fun c => ?_⟩
    have hstep := hhead c
    dsimp only at hstep ⊢
    rw [List.foldl_cons, hstep, List.foldl_append]
    exact htail _

/-- The addresses of a free domain are added one after the other. -/
theorem freeDomain_run (addrs : List InAddr) (c : ServerConfig) :
    ({ c with
        toConfig := addrs.foldl (fun config a => (addToFreeIpList (inetNtoa a) config).2)
          c.toConfig } : ServerConfig) =
      (addrs.map fun a => ServerOp.freeIp (inetNtoa a)).foldl ServerOp.run c := by
  induction addrs generalizing c with
  | nil => rfl
  | cons a addrs ih => exact ih (ServerOp.run c (.freeIp (inetNtoa a)))

theorem isRun_add (dns : Dns) (key : ListKey) (text : Text) : IsRun (key.add dns text) := by
  intro k
  cases key with
  | freeIPList => exact ⟨[.freeIp text], k, fun _ => rfl⟩
  | blockedMACList => exact ⟨[.mac .blocked text], k, fun _ => rfl⟩
  | trustedMACList => exact ⟨[.mac .trusted text], k, fun _ => rfl⟩
  | freeDomainList =>
    cases hdns : dns k text with
    | none => exact ⟨[], k + 1, fun c => by simp [ListKey.add, addToFreeDomainList, hdns]⟩
    | some addrs =>
      refine ⟨addrs.map fun a => .freeIp (inetNtoa a), k + 1, fun c => ?_⟩
      simp only [ListKey.add, addToFreeDomainList, hdns, freeDomain_run]

theorem isRun_applyPairs (dns : Dns) (pairs : List ConfPair) : IsRun (applyPairs dns pairs) := by
  refine isRun_foldl (fun pair => ?_) pairs
  cases pair with
  | text key value => exact fun k => ⟨[.text key value], k, fun _ => rfl⟩
  | number key value => exact fun k => ⟨[.number key (atoi value)], k, fun _ => rfl⟩
  | list key elements => exact isRun_foldl (fun text => isRun_add dns key text) elements

/-- INTERNAL: Pairs that have been applied change nothing when they are applied again.
SOURCE: conf.c:838-1003 -/
theorem applyPairs_twice (dns : Dns) (pairs : List ConfPair) (c : ServerConfig) :
    (applyPairs dns pairs { config := (applyPairs dns pairs { config := c }).config }).config =
      (applyPairs dns pairs { config := c }).config := by
  obtain ⟨ops, k, hrun⟩ := isRun_applyPairs dns pairs 0
  rw [hrun, hrun]
  exact run_twice ops c

theorem literal_assign (key : TextKey) (value : Text) (c : ServerConfig) :
    (key.assign value c).literal = Function.update c.literal key false := by
  cases key <;> rfl

/-- A change leaves the server's name, and makes no field point to a literal. -/
theorem run_frame (c : ServerConfig) (op : ServerOp) :
    (op.run c).authServer = c.authServer ∧
      ∀ key, (op.run c).literal key = true → c.literal key = true := by
  cases op with
  | text key value =>
    refine ⟨by cases key <;> rfl, fun key' h => ?_⟩
    rw [ServerOp.run, literal_assign, Function.update_apply] at h
    split at h
    · cases h
    · exact h
  | number key n => exact ⟨by cases key <;> rfl, fun key' h => by cases key <;> exact h⟩
  | freeIp possibleip => exact ⟨rfl, fun _ h => h⟩
  | mac l possiblemac => exact ⟨rfl, fun _ h => h⟩

theorem applyPairs_frame (dns : Dns) (pairs : List ConfPair) (a : Applied) :
    (applyPairs dns pairs a).config.authServer = a.config.authServer ∧
      ∀ key, (applyPairs dns pairs a).config.literal key = true →
        a.config.literal key = true := by
  obtain ⟨ops, k, hrun⟩ := isRun_applyPairs dns pairs a.lookups
  have heq := hrun a.config
  rw [heq]
  dsimp only
  clear heq hrun
  generalize a.config = c
  induction ops generalizing c with
  | nil => exact ⟨rfl, fun _ h => h⟩
  | cons op ops ih =>
    obtain ⟨hserver, hliteral⟩ := ih (op.run c)
    obtain ⟨hserver', hliteral'⟩ := run_frame c op
    exact ⟨hserver.trans hserver', fun key h => hliteral' key (hliteral key h)⟩

/-- A pair makes the same field a copy, whatever the configuration is. -/
theorem literal_apply_mono (dns : Dns) (pair : ConfPair) {a a' : Applied}
    (h : ∀ key, a'.config.literal key = true → a.config.literal key = true) (key : TextKey)
    (hkey : (pair.apply dns a').config.literal key = true) :
    (pair.apply dns a).config.literal key = true := by
  cases pair with
  | text key' value =>
    simp only [ConfPair.apply, literal_assign, Function.update_apply] at hkey ⊢
    split at hkey
    · cases hkey
    · next hne =>
      rw [if_neg hne]
      exact h key hkey
  | number key' value =>
    have hsame : ∀ a : Applied,
        ((ConfPair.number key' value).apply dns a).config.literal = a.config.literal := fun a => by
      cases key' <;> rfl
    rw [hsame] at hkey ⊢
    exact h key hkey
  | list key' elements =>
    have hsame : ∀ a : Applied,
        ((ConfPair.list key' elements).apply dns a).config.literal = a.config.literal := by
      clear hkey
      induction elements with
      | nil => exact fun _ => rfl
      | cons text elements ih =>
        intro a
        have hadd : (key'.add dns text a).config.literal = a.config.literal := by
          cases key' <;> rfl
        exact Eq.trans (ih (key'.add dns text a)) hadd
    rw [hsame] at hkey ⊢
    exact h key hkey

end WifiCat.Analysis
