import WifiCat.Analysis.Startup
import WifiCat.Model.Packet

/-!
# The marks of authenticated clients

The mark of a client is two numerals written one after the other, so it is the number of
its slot shifted by the digits of `FW_MARK_AUTHENTICATED`, ORed with that mark
(`clientMark_eq_or`).  The filter side compares under a mask that is the OR of the three
marks; `or_and_mask` says when the shifted part disappears under it.
-/

set_option autoImplicit false

namespace WifiCat.Analysis

open CommandProgram Netfilter Scan

/-! ## Bits -/

/-- A number shifted past another one shares no bit with it. -/
theorem shiftLeft_and_eq_zero {k a : ℕ} (n : ℕ) (h : a < 2 ^ k) : (n <<< k) &&& a = 0 := by
  refine Nat.eq_of_testBit_eq fun i => ?_
  rw [Nat.testBit_and, Nat.testBit_shiftLeft, Nat.zero_testBit]
  by_cases hi : k ≤ i
  · have hlow : a.testBit i = false :=
      Nat.testBit_lt_two_pow (lt_of_lt_of_le h (Nat.pow_le_pow_right (by decide) hi))
    simp [hlow]
  · simp [hi]

/-- INTERNAL: under the mask of three marks, a mark `a` with other bits `x` ORed in is
seen as `a` exactly when `x` is clear of the two other marks. -/
theorem or_and_mask {w : ℕ} (x a b t : BitVec w) (h : x &&& a = 0) :
    (x ||| a) &&& (b ||| t ||| a) = a ↔ x &&& (t ||| b) = 0 := by
  have hbit : ∀ i, (x.getLsbD i && a.getLsbD i) = false := by
    intro i
    have hi := congrArg (fun v => v.getLsbD i) h
    simpa using hi
  constructor
  · intro hmask
    refine BitVec.eq_of_getLsbD_eq fun i _ => ?_
    have hi := congrArg (fun v => v.getLsbD i) hmask
    have hdisjoint := hbit i
    simp only [BitVec.getLsbD_and, BitVec.getLsbD_or] at hi ⊢
    revert hi hdisjoint
    cases x.getLsbD i <;> cases a.getLsbD i <;> cases b.getLsbD i <;> cases t.getLsbD i <;> simp
  · intro hclear
    refine BitVec.eq_of_getLsbD_eq fun i _ => ?_
    have hi := congrArg (fun v => v.getLsbD i) hclear
    simp only [BitVec.getLsbD_and, BitVec.getLsbD_or] at hi ⊢
    revert hi
    cases x.getLsbD i <;> cases a.getLsbD i <;> cases b.getLsbD i <;> cases t.getLsbD i <;> simp

/-! ## The mark of a client -/

variable {fw : Firewall} {config : Config}

/-- The slot's part of a client's mark. -/
def slotBits (fw : Firewall) (client : Client) : ℕ :=
  (client.idx + 10) <<< (4 * hexLength fw.fwMarkAuthenticated.toNat)

theorem authenticated_lt (fw : Firewall) :
    fw.fwMarkAuthenticated.toNat < 2 ^ (4 * hexLength fw.fwMarkAuthenticated.toNat) := by
  rw [pow_mul]
  exact lt_pow_hexLength _

/-- INTERNAL: the numeral `0x%x%x` is the shifted slot ORed with the mark.
SOURCE: fw_iptables.c:774 -/
theorem clientMark_eq_or (fw : Firewall) (client : Client) :
    clientMark fw client = slotBits fw client ||| fw.fwMarkAuthenticated.toNat := by
  calc clientMark fw client
      = (client.idx + 10) * 16 ^ hexLength fw.fwMarkAuthenticated.toNat +
          fw.fwMarkAuthenticated.toNat := by
        unfold clientMark hexNumeral
        simp only [List.flatMap_cons, List.flatMap_nil, List.append_nil]
        exact hexValue_hexDigits_append _ _
    _ = slotBits fw client + fw.fwMarkAuthenticated.toNat := by
        unfold slotBits
        rw [Nat.shiftLeft_eq, pow_mul]
        norm_num
    _ = slotBits fw client ||| fw.fwMarkAuthenticated.toNat :=
        Nat.shiftLeft_add_eq_or_of_lt (authenticated_lt fw) _

/-- INTERNAL: the numeral has 32 bits when the shifted slot has. -/
theorem clientMark_lt_iff (fw : Firewall) (client : Client) :
    clientMark fw client < 2 ^ 32 ↔ slotBits fw client < 2 ^ 32 := by
  rw [clientMark_eq_or]
  constructor
  · intro h
    exact lt_of_le_of_lt Nat.left_le_or h
  · intro h
    exact Nat.or_lt_two_pow h fw.fwMarkAuthenticated.isLt

/-- INTERNAL: a client's mark is greater than the mark it ends in. -/
theorem authenticated_lt_clientMark (fw : Firewall) (client : Client) :
    fw.fwMarkAuthenticated.toNat < clientMark fw client := by
  have hpos : 0 < slotBits fw client := by
    unfold slotBits
    rw [Nat.shiftLeft_eq]
    exact Nat.mul_pos (by omega) (by positivity)
  rw [clientMark_eq_or]
  unfold slotBits at hpos ⊢
  rw [← Nat.shiftLeft_add_eq_or_of_lt (authenticated_lt fw)]
  omega

/-- The mark a rule sets on a packet without a mark. -/
def installedMark (r : IptablesRule) : BitVec 32 :=
  match r.target with
  | .ext x => (x.run (⟨(), 0⟩ : Packet Unit)).mark
  | _ => 0

/-- INTERNAL: both mark operators set the client's mark on a packet without one. -/
theorem installedMark_outgoing (fw : Firewall) (client : Client) :
    installedMark (outgoingMarkRule fw client) =
      BitVec.ofNat 32 (slotBits fw client) ||| fw.fwMarkAuthenticated := by
  have hmark : installedMark (outgoingMarkRule fw client) =
      BitVec.ofNat 32 (clientMark fw client) := by
    unfold installedMark outgoingMarkRule
    cases fw.markop <;> simp [Extension.run, MarkOp.apply]
  rw [hmark, clientMark_eq_or, BitVec.ofNat_or, BitVec.ofNat_toNat]
  simp

/-- The packets of an authenticated client are taken for authenticated ones, and for
nothing else. -/
structure ClassifiedAuthenticated (fw : Firewall) (client : Client) : Prop where
  fits : clientMark fw client < 2 ^ 32
  authenticated : markMatches fw.fwMarkAuthenticated fw.markmask
    (installedMark (outgoingMarkRule fw client)) = true
  not_trusted : markMatches fw.fwMarkTrusted fw.markmask
    (installedMark (outgoingMarkRule fw client)) = false
  not_blocked : markMatches fw.fwMarkBlocked fw.markmask
    (installedMark (outgoingMarkRule fw client)) = false

/-- The kernel compares marks under a mask, and the bits of the slot, shifted past the
authenticated mark, fit in 32 bits and are clear of the other two marks. -/
def MarkVisible (fw : Firewall) (client : Client) : Prop :=
  fw.markmask ≠ none ∧ slotBits fw client < 2 ^ 32 ∧
    BitVec.ofNat 32 (slotBits fw client) &&& (fw.fwMarkTrusted ||| fw.fwMarkBlocked) = 0

/-- INTERNAL: what decides about the classification.
SOURCE: fw_iptables.c:77-150, 770-781 -/
theorem classified_iff (hready : MarksReady config fw) (client : Client) :
    ClassifiedAuthenticated fw client ↔ MarkVisible fw client := by
  obtain ⟨hbt, hta, hab, hb, ht, ha⟩ := hready.accepted
  rw [← hready.blocked, ← hready.trusted] at hbt
  rw [← hready.trusted, ← hready.authenticated] at hta
  rw [← hready.authenticated, ← hready.blocked] at hab
  have hdisjoint : BitVec.ofNat 32 (slotBits fw client) &&& fw.fwMarkAuthenticated = 0 := by
    have hzero := shiftLeft_and_eq_zero (client.idx + 10) (authenticated_lt fw)
    have hcast := congrArg (BitVec.ofNat 32) hzero
    rw [BitVec.ofNat_and, BitVec.ofNat_toNat] at hcast
    simpa [slotBits] using hcast
  have hmask := hready.markmask
  rw [← hready.blocked, ← hready.trusted, ← hready.authenticated] at hmask
  rcases hmask with hnone | hsome
  · -- without a mask the whole mark is compared, and it is too big
    refine ⟨fun hclass => ?_, fun h => absurd hnone h.1⟩
    exfalso
    have hauth := hclass.authenticated
    rw [hnone, installedMark_outgoing] at hauth
    simp only [markMatches, beq_iff_eq] at hauth
    have hnat : clientMark fw client % 2 ^ 32 = fw.fwMarkAuthenticated.toNat := by
      rw [clientMark_eq_or]
      have h := congrArg BitVec.toNat hauth
      rw [← BitVec.toNat_ofNat, BitVec.ofNat_or, BitVec.ofNat_toNat]
      simpa using h
    rw [Nat.mod_eq_of_lt hclass.fits] at hnat
    have := authenticated_lt_clientMark fw client
    omega
  · have hiff := or_and_mask (BitVec.ofNat 32 (slotBits fw client)) fw.fwMarkAuthenticated
      fw.fwMarkBlocked fw.fwMarkTrusted hdisjoint
    constructor
    · intro hclass
      refine ⟨by simp [hsome], (clientMark_lt_iff fw client).mp hclass.fits, hiff.mp ?_⟩
      have hauth := hclass.authenticated
      rw [hsome, installedMark_outgoing] at hauth
      simpa [markMatches] using hauth
    · rintro ⟨-, hfits, hclear⟩
      have hseen := hiff.mpr hclear
      refine ⟨(clientMark_lt_iff fw client).mpr hfits, ?_, ?_, ?_⟩ <;>
        simp only [hsome, installedMark_outgoing, markMatches, hseen]
      · simp
      · simpa using hta.symm
      · simpa using hab

/-- INTERNAL: whatever the kernel supports, a start that returns 0 has ready marks. -/
theorem marksReady_of_start {out : Outside} {h : Host}
    (hrc : (runOn out (iptablesFwInitMarks config fw) h).1.1 = 0) :
    MarksReady config (runOn out (iptablesFwInitMarks config fw) h).1.2 :=
  ((fwInitMarks_result config fw).result out h).2 hrc

/-- **When an authenticated client's packets are classified as authenticated**: for any
marks that start-up accepts, any outcome of the two capability probes and any slot,
exactly when the mark is visible under the mask.
SOURCE: fw_iptables.c:77-150, 434-437, 770-781 -/
theorem authenticated_classified_iff (out : Outside) (config : Config) (fw : Firewall) (h : Host)
    (hrc : (runOn out (iptablesFwInitMarks config fw) h).1.1 = 0) (client : Client) :
    ClassifiedAuthenticated (runOn out (iptablesFwInitMarks config fw) h).1.2 client ↔
      MarkVisible (runOn out (iptablesFwInitMarks config fw) h).1.2 client :=
  classified_iff (marksReady_of_start hrc) client

/-- A client in slot 0. -/
def sampleClient : Client :=
  { addr := 1, ip := "10.0.0.2".toList, mac := "00:11:22:33:44:55".toList, token := none, idx := 0 }

/-- The default marks on a kernel that supports everything: the mark is `0xa400`.
SOURCE: conf.c:316-319 -/
theorem authenticated_classified_default :
    MarkVisible (runOn obligingMachine (iptablesFwInitMarks {} {}) emptyRouter).1.2
      sampleClient ∧
    ClassifiedAuthenticated (runOn obligingMachine (iptablesFwInitMarks {} {}) emptyRouter).1.2
      sampleClient := by
  have hvisible : MarkVisible
      (runOn obligingMachine (iptablesFwInitMarks {} {}) emptyRouter).1.2 sampleClient := by
    unfold MarkVisible
    decide +kernel
  exact ⟨hvisible, (authenticated_classified_iff obligingMachine {} {} emptyRouter
    (by decide +kernel) sampleClient).mpr hvisible⟩

/-- With `0x2000` for trusted packets, bit 13 of the mark `0xa400` of slot 0 is a bit of
the mask: under it the mark is seen as `0x2400`.
SOURCE: fw_iptables.c:774, 434-437 -/
theorem authenticated_not_classified :
    ¬∀ (out : Outside) (config : Config) (fw : Firewall) (h : Host),
      (runOn out (iptablesFwInitMarks config fw) h).1.1 = 0 →
      ∀ client : Client, (client.idx : ℤ) < config.maxclients →
      ClassifiedAuthenticated (runOn out (iptablesFwInitMarks config fw) h).1.2 client := by
  intro hall
  have hclass := hall obligingMachine { fwMarkTrusted := 0x2000 } {} emptyRouter
    (by decide +kernel) sampleClient (by decide)
  exact absurd hclass.authenticated (by decide +kernel)

end WifiCat.Analysis
