import WifiCat.Model.Centerserver

/-!
# The resolution of the auth server's name

`_resolve_host` calls itself after every round in which the auth server's name was not found but
a popular one was.  It counts its level and never looks at it (`resolveHostAt_eq`): it returns
within a number of calls if and only if one of its rounds ends with an answer for the auth
server, or with none for the popular servers (`resolve_host_returns_iff`).
-/

set_option autoImplicit false

namespace WifiCat.Analysis

open Scan

variable {lookup : ℕ → Text → Option InAddr} {hostname : Text}

/-- INTERNAL: nothing depends on the level.
SOURCE: centerserver.c:22-87 -/
theorem resolveHostAt_eq (fuel : ℕ) (level : ℤ) (n : ℕ) :
    resolveHostAt lookup hostname fuel level n = resolveHost lookup hostname fuel n := by
  induction fuel generalizing level n with
  | zero => rfl
  | succ fuel ih =>
    unfold resolveHostAt resolveHost
    cases lookup n hostname with
    | some addr => rfl
    | none => simp only [ih]

/-! ## Rounds -/

/-- The number of the look-up with which a round starts, when none of the rounds before it has
ended the resolution.  A round looks up the auth server, the first popular server, and the second
one if that is not found.
SOURCE: centerserver.c:36, 44-54 -/
def roundStart (lookup : ℕ → Text → Option InAddr) : ℕ → ℕ
  | 0 => 0
  | k + 1 =>
    let n := roundStart lookup k
    if (lookup (n + 1) "www.baidu.com".toList).isSome then n + 2 else n + 3

/-- The answers of a round that starts with the `n`-th look-up end the resolution. -/
def RoundEnds (lookup : ℕ → Text → Option InAddr) (hostname : Text) (n : ℕ) : Prop :=
  (lookup n hostname).isSome ∨
    (lookup (n + 1) "www.baidu.com".toList = none ∧ lookup (n + 2) "www.qq.com".toList = none)

theorem lookupPopular_pair (n : ℕ) (first second : Text) :
    lookupPopular lookup n [first, second] =
      if (lookup n first).isSome then (true, n + 1)
      else ((lookup (n + 1) second).isSome, n + 2) := by
  unfold lookupPopular lookupPopular lookupPopular
  cases (lookup (n + 1) second).isSome <;> rfl

/-- INTERNAL: the auth server is found.
SOURCE: centerserver.c:36, 78-85 -/
theorem resolveHost_found {n : ℕ} {addr : InAddr} (h : lookup n hostname = some addr) (fuel : ℕ) :
    resolveHost lookup hostname (fuel + 1) n = some (some (inetNtoa addr)) := by
  rw [resolveHost, h]

/-- INTERNAL: it is not found, and the popular servers decide.
SOURCE: centerserver.c:37-77 -/
theorem resolveHost_not_found {n : ℕ} (h : lookup n hostname = none) (fuel : ℕ) :
    resolveHost lookup hostname (fuel + 1) n =
      if (lookupPopular lookup (n + 1) popularServers).1 then
        resolveHost lookup hostname fuel (lookupPopular lookup (n + 1) popularServers).2
      else some none := by
  rw [resolveHost, h]

/-- INTERNAL: a round ends the resolution or leads to the next one.
SOURCE: centerserver.c:36-85 -/
theorem resolveHost_round (fuel k : ℕ) :
    (RoundEnds lookup hostname (roundStart lookup k) →
        (resolveHost lookup hostname (fuel + 1) (roundStart lookup k)).isSome) ∧
      (¬RoundEnds lookup hostname (roundStart lookup k) →
        resolveHost lookup hostname (fuel + 1) (roundStart lookup k) =
          resolveHost lookup hostname fuel (roundStart lookup (k + 1))) := by
  set n := roundStart lookup k with hn
  have hnext : roundStart lookup (k + 1) =
      if (lookup (n + 1) "www.baidu.com".toList).isSome then n + 2 else n + 3 := rfl
  rw [hnext]
  unfold RoundEnds
  generalize hfirst : "www.baidu.com".toList = first
  generalize hsecond : "www.qq.com".toList = second
  cases hfound : lookup n hostname with
  | some addr => simp [resolveHost_found hfound]
  | none =>
    rw [resolveHost_not_found hfound, popularServers, hfirst, hsecond, lookupPopular_pair]
    cases lookup (n + 1) first with
    | some addr => simp
    | none => cases lookup (n + 2) second <;> simp

/-- INTERNAL: from a round on, a number of calls is enough if and only if one of that many rounds
ends the resolution. -/
theorem resolveHost_isSome_iff (fuel k : ℕ) :
    (resolveHost lookup hostname fuel (roundStart lookup k)).isSome ↔
      ∃ i < fuel, RoundEnds lookup hostname (roundStart lookup (k + i)) := by
  induction fuel generalizing k with
  | zero => simp [resolveHost]
  | succ fuel ih =>
    obtain ⟨hends, hleads⟩ := @resolveHost_round lookup hostname fuel k
    by_cases hround : RoundEnds lookup hostname (roundStart lookup k)
    · exact iff_of_true (hends hround) ⟨0, by omega, hround⟩
    · rw [hleads hround, ih]
      constructor
      · rintro ⟨i, hi, hend⟩
        exact ⟨i + 1, by omega, by rwa [show k + (i + 1) = k + 1 + i by omega]⟩
      · rintro ⟨i, hi, hend⟩
        cases i with
        | zero => exact absurd hend hround
        | succ i => exact ⟨i, by omega, by rwa [show k + 1 + i = k + (i + 1) by omega]⟩

/-- A name server that knows a name at every second look-up. -/
def everySecond (n : ℕ) (_ : Text) : Option InAddr := if n % 2 = 1 then some (127, 0, 0, 1) else none

/-- INTERNAL: with it no round ends the resolution: the auth server is not found, and then a
popular server is. -/
theorem not_roundEnds_everySecond (k : ℕ) : ¬RoundEnds everySecond hostname (roundStart everySecond k) := by
  have hstart : roundStart everySecond k = 2 * k := by
    induction k with
    | zero => rfl
    | succ k ih =>
      rw [roundStart, ih]
      have hodd : (2 * k + 1) % 2 = 1 := by omega
      simp only [everySecond, hodd, if_true, Option.isSome_some]
      omega
  have heven : ¬(2 * k) % 2 = 1 := by omega
  have hodd : (2 * k + 1) % 2 = 1 := by omega
  rw [hstart]
  rintro (hfound | ⟨hnone, -⟩)
  · simp [everySecond] at hfound
  · simp [everySecond, hodd] at hnone

/-- **When `resolve_host` returns**: within `calls` recursive calls if and only if one of the rounds
up to that one ends it; for no host name is there a bound for all answers.
SOURCE: centerserver.c:22-92 -/
theorem resolve_host_returns_iff (hostname : Text) :
    (∀ (lookup : ℕ → Text → Option InAddr) (calls : ℕ),
        (resolveHostAt lookup hostname (calls + 1) 0 0).isSome ↔
          ∃ k ≤ calls, RoundEnds lookup hostname (roundStart lookup k)) ∧
      ¬∃ calls, ∀ lookup, (resolveHostAt lookup hostname (calls + 1) 0 0).isSome := by
  have hreturns : ∀ (lookup : ℕ → Text → Option InAddr) (calls : ℕ),
      (resolveHostAt lookup hostname (calls + 1) 0 0).isSome ↔
        ∃ k ≤ calls, RoundEnds lookup hostname (roundStart lookup k) := by
    intro lookup calls
    have hrounds := @resolveHost_isSome_iff lookup hostname (calls + 1) 0
    simp only [roundStart, Nat.zero_add, Nat.lt_succ_iff] at hrounds
    rw [resolveHostAt_eq, hrounds]
  refine ⟨hreturns, ?_⟩
  rintro ⟨calls, hbound⟩
  obtain ⟨k, -, hend⟩ := (hreturns everySecond calls).mp (hbound everySecond)
  exact not_roundEnds_everySecond k hend

/-- With that name server `resolve_host` does not return. -/
theorem resolve_host_loops :
    ¬∀ (hostname : Text) (lookup : ℕ → Text → Option InAddr),
      ∃ fuel, (resolveHostAt lookup hostname fuel 0 0).isSome := by
  intro hall
  obtain ⟨fuel, hsome⟩ := hall "manage.yiroy.com".toList everySecond
  rw [resolveHostAt_eq] at hsome
  obtain ⟨k, -, hend⟩ := (resolveHost_isSome_iff fuel 0).mp hsome
  exact not_roundEnds_everySecond _ hend

end WifiCat.Analysis
