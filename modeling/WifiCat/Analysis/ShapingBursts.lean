import WifiCat.Library.Transcript
import WifiCat.Analysis.StartupStatus
import WifiCat.Analysis.TimeoutSweep

/-!
# The bursts of the traffic classes

The burst of a limit of `n` kbit/s is `n * 1000 / 8 / 100` bytes, and at least one packet
(`exactBurst`).  `tc.c` computes it in an `int`, where C gives the first product no value from
2147484 kbit/s on, and the bound of one packet hides what comes out: the commands carry the exact
bursts if and only if the limits are below that (`shaping_bursts_iff`).
-/

set_option autoImplicit false

namespace WifiCat.Analysis

open CommandProgram Prog Scan

/-- The burst of a limit, in whole numbers. -/
def exactBurst (limit : ℕ) : ℕ := max 1540 (limit * 1000 / 8 / 100)

theorem exactBurst_mono {limit limit' : ℕ} (h : limit ≤ limit') :
    exactBurst limit ≤ exactBurst limit' := by
  have hbytes : limit * 1000 / 8 / 100 ≤ limit' * 1000 / 8 / 100 := by omega
  exact max_le_max le_rfl hbytes

/-- The products that the burst of a limit takes fit an `int`. -/
def BurstInRange (limit : ℕ) : Prop :=
  FitsInt (limit * 1000) ∧ FitsInt (exactBurst limit * 10)

theorem burstInRange_iff (limit : ℕ) : BurstInRange limit ↔ limit ≤ 2147483 := by
  unfold BurstInRange FitsInt exactBurst
  omega

/-- INTERNAL: a product of `int`s that fits is the product. -/
theorem intProduct_eq_some_iff (a b c : ℤ) :
    intProduct a b = some c ↔ FitsInt (a * b) ∧ a * b = c := by
  unfold intProduct FitsInt
  split <;> simp_all

/-- INTERNAL: the burst of a limit whose product fits. -/
theorem packetBurst_eq (limit : ℕ) :
    packetBurst ((((limit : ℤ) * 1000).tdiv 8).tdiv HZ) = exactBurst limit := by
  have hnonneg : (0 : ℤ) ≤ limit * 1000 := by omega
  have hbytes : (((limit : ℤ) * 1000).tdiv 8).tdiv HZ = (limit * 1000 / 8 / 100 : ℕ) := by
    rw [Int.tdiv_eq_ediv_of_nonneg hnonneg, Int.tdiv_eq_ediv_of_nonneg (by omega)]
    rfl
  unfold packetBurst exactBurst MTU
  rw [hbytes]
  dsimp only
  split <;> omega

theorem tcBurst_eq_iff (limit : ℕ) : tcBurst limit = some (exactBurst limit : ℤ) ↔
    FitsInt (limit * 1000) := by
  unfold tcBurst
  rw [Option.map_eq_some_iff]
  constructor
  · rintro ⟨bits, hbits, -⟩
    exact ((intProduct_eq_some_iff _ _ _).mp hbits).1
  · intro hfits
    exact ⟨_, (intProduct_eq_some_iff _ _ _).mpr ⟨hfits, rfl⟩, packetBurst_eq limit⟩

theorem tcBurst10_eq {limit : ℕ} (h : BurstInRange limit) :
    tcBurst10 limit = some (10 * exactBurst limit : ℤ) := by
  unfold tcBurst10
  rw [(tcBurst_eq_iff limit).mpr h.1, Option.bind_some, intProduct_eq_some_iff]
  exact ⟨h.2, mul_comm _ _⟩

/-! ## The commands -/

/-- The burst and the cburst of a command that adds a class. -/
def classBurst : Event → Option (Option ℤ × Option ℤ)
  | .execute (.tc (.classAdd _ _ _ _ _ burst cburst _ _)) => some (burst, cburst)
  | _ => none

variable {σ : Type} (h : (e : Event) → σ → e.Answer × σ) (s : σ)

/-- The bursts and cbursts that a run puts into its commands. -/
def bursts (p : Program (BitVec 32)) : List (Option ℤ × Option ℤ) :=
  ((transcript h p s).map Sigma.fst).filterMap classBurst

/-- INTERNAL: the commands are given one after the other, whatever their statuses. -/
theorem questions_tcDoCommands (cmds : List TcCommand) :
    (transcript h (tcDoCommands cmds) s).map Sigma.fst =
      cmds.map fun cmd => Event.execute (.tc cmd) := by
  suffices hfold : ∀ (rc : BitVec 32) (s : σ), (transcript h (cmds.foldlM (fun rc cmd => do
      return rc ||| (← tcDoCommand cmd)) rc : Program (BitVec 32)) s).map Sigma.fst =
        cmds.map fun cmd => Event.execute (.tc cmd) from hfold 0 s
  induction cmds with
  | nil => exact fun _ _ => rfl
  | cons cmd cmds ih =>
    intro rc s
    rw [List.foldlM_cons, transcript_bind, List.map_append, ih]
    rfl

theorem bursts_tcDoCommands (cmds : List TcCommand) :
    bursts h s (tcDoCommands cmds) = cmds.filterMap fun cmd => classBurst (.execute (.tc cmd)) := by
  rw [bursts, questions_tcDoCommands, List.filterMap_map]
  rfl

/-- The burst and the cburst of a limit, as `tc.c` computes them. -/
def burstPair (limit : ℕ) : Option ℤ × Option ℤ := (tcBurst10 limit, tcBurst limit)

/-- The burst and the cburst that a limit should have. -/
def exactPair (limit : ℕ) : ℤ × ℤ := (10 * exactBurst limit, exactBurst limit)

/-- Both numbers have a value. -/
def definedPair (pair : ℤ × ℤ) : Option ℤ × Option ℤ := (some pair.1, some pair.2)

theorem burstPair_eq_iff (limit : ℕ) :
    burstPair limit = definedPair (exactPair limit) ↔ limit ≤ 2147483 := by
  rw [← burstInRange_iff]
  unfold burstPair definedPair exactPair
  rw [Prod.mk.injEq, tcBurst_eq_iff]
  constructor
  · rintro ⟨-, hfits⟩
    exact (burstInRange_iff limit).mpr (by unfold FitsInt at hfits; omega)
  · intro hrange
    exact ⟨tcBurst10_eq hrange, hrange.1⟩

/-- The bursts of the three functions, for a download and an upload limit.
SOURCE: tc.c:80-107, 126-143, 151-168 -/
def shapingBursts (downDev upDev : Text) (idx : ℕ) (fwMark : BitVec 32)
    (downloadLimit uploadLimit : ℕ) : List (Option ℤ × Option ℤ) :=
  bursts h s (tcAttachClient downDev downloadLimit upDev uploadLimit idx fwMark) ++
    bursts h s (tcAttachUploadQdisc upDev uploadLimit) ++
    bursts h s (tcAttachDownloadQdisc downDev downloadLimit)

/-- INTERNAL: which limit each class has its burst from. -/
theorem shapingBursts_eq (downDev upDev : Text) (idx : ℕ) (fwMark : BitVec 32) (down up : ℕ) :
    shapingBursts h s downDev upDev idx fwMark down up =
      [down, up, up, up, down, down].map burstPair := by
  unfold shapingBursts tcAttachClient tcAttachUploadQdisc tcAttachDownloadQdisc tcAttachQdisc
  simp only [bursts_tcDoCommands]
  rfl

/-- The first numbers have values, and are at most the second ones. -/
def LePair (pair pair' : Option ℤ × Option ℤ) : Prop :=
  ∃ p p', pair = definedPair p ∧ pair' = definedPair p' ∧ p ≤ p'

/-- What the bursts should be: exact, computed without leaving the range of an `int`, and no
smaller than those of lower limits. -/
structure BurstsExact (downDev upDev : Text) (idx : ℕ) (fwMark : BitVec 32) (down up : ℕ) :
    Prop where
  values : shapingBursts h s downDev upDev idx fwMark down up =
    [down, up, up, up, down, down].map fun limit => definedPair (exactPair limit)
  in_range : BurstInRange down ∧ BurstInRange up
  mono : ∀ down' ≤ down, ∀ up' ≤ up,
    List.Forall₂ LePair (shapingBursts h s downDev upDev idx fwMark down' up')
      (shapingBursts h s downDev upDev idx fwMark down up)

/-- INTERNAL: higher limits have no smaller bursts. -/
theorem exactPair_lePair {limit limit' : ℕ} (h : limit ≤ limit') :
    LePair (definedPair (exactPair limit)) (definedPair (exactPair limit')) := by
  have hburst := exactBurst_mono h
  refine ⟨_, _, rfl, rfl, ?_, ?_⟩ <;> unfold exactPair <;> dsimp only <;> omega

/-- **The bursts are exact** if and only if both limits are at most 2147483 kbit/s.
SOURCE: tc.c:80-107, 126-143, 151-168 -/
theorem shaping_bursts_iff (downDev upDev : Text) (idx : ℕ) (fwMark : BitVec 32) (down up : ℕ) :
    BurstsExact h s downDev upDev idx fwMark down up ↔ down ≤ 2147483 ∧ up ≤ 2147483 := by
  constructor
  · intro hexact
    exact ⟨(burstInRange_iff down).mp hexact.in_range.1, (burstInRange_iff up).mp hexact.in_range.2⟩
  · rintro ⟨hdown, hup⟩
    have hpairs : ∀ limit ≤ 2147483, burstPair limit = definedPair (exactPair limit) :=
      fun limit hle => (burstPair_eq_iff limit).mpr hle
    have hvalues : ∀ down' ≤ down, ∀ up' ≤ up,
        shapingBursts h s downDev upDev idx fwMark down' up' =
          [down', up', up', up', down', down'].map fun limit => definedPair (exactPair limit) := by
      intro down' hdown' up' hup'
      rw [shapingBursts_eq]
      have hd := hpairs down' (hdown'.trans hdown)
      have hu := hpairs up' (hup'.trans hup)
      simp only [List.map_cons, List.map_nil, hd, hu]
    refine ⟨hvalues down le_rfl up le_rfl,
      ⟨(burstInRange_iff down).mpr hdown, (burstInRange_iff up).mpr hup⟩, ?_⟩
    intro down' hdown' up' hup'
    rw [hvalues down' hdown' up' hup', hvalues down le_rfl up le_rfl]
    have hd := exactPair_lePair hdown'
    have hu := exactPair_lePair hup'
    simp only [List.map_cons, List.map_nil, List.forall₂_cons, List.forall₂_nil_left_iff]
    exact ⟨hd, hu, hu, hu, hd, hd, trivial⟩

/-- The bursts of a download limit of 17179870 kbit/s have no value.  A product that wraps and
the product `limit * 125` of a compiler both give the burst of the slowest client. -/
theorem shaping_bursts_undefined :
    shapingBursts (failing (downloadLink {})) () "imq0".toList "imq1".toList 0 0x400 17179870 1000 =
        [17179870, 1000, 1000, 1000, 17179870, 17179870].map burstPair ∧
      burstPair 17179870 = (none, none) ∧ exactPair 17179870 = (214748370, 21474837) ∧
      packetBurst (((int32 (17179870 * 1000)).tdiv 8).tdiv HZ) = 1540 ∧
      packetBurst ((int32 (17179870 * 125)).tdiv HZ) = 1540 ∧
      ¬BurstsExact (failing (downloadLink {})) () "imq0".toList "imq1".toList 0 0x400 17179870
        1000 := by
  have hpairs := shapingBursts_eq (failing (downloadLink {})) () "imq0".toList "imq1".toList 0 0x400
    17179870 1000
  refine ⟨hpairs, by decide, by decide, by decide, by decide, fun hexact => ?_⟩
  have hvalues := hexact.values
  rw [hpairs] at hvalues
  exact absurd hvalues (by decide)

end WifiCat.Analysis
