import WifiCat.Model.Packet

/-!
# MAC addresses as texts

The lists keep the first seventeen characters of a MAC address and compare them without
regard to case; the firewall gets the text as it came and `iptables` reads it.  An
address that `iptables` can read is its own copy (`macCopy_of_isMacAddress`), and two
texts that are the same up to case are read alike (`readMac_of_sameCase`); for octets of
two digits the converse holds (`readMac_eq_iff`).
-/

set_option autoImplicit false

namespace WifiCat.Analysis

open Scan

/-- INTERNAL: the shape of a text of six octets of at most two digits. -/
theorem six_octets {mac : Text} (hsix : (fields ':' mac).length = 6)
    (hoctet : ∀ w ∈ fields ':' mac, w.length ≤ 2 ∧ ∀ c ∈ w, isHexDigit c = true) :
    mac.length ≤ 17 ∧ ∀ c ∈ mac, isMacChar c = true := by
  refine ⟨?_, ?_⟩
  · have hlen := length_add_one_eq ':' mac
    have hsum : ((fields ':' mac).map List.length).sum ≤ ((fields ':' mac).map List.length).length • 2 := by
      refine List.sum_le_card_nsmul _ 2 fun n hn => ?_
      obtain ⟨w, hw, rfl⟩ := List.mem_map.mp hn
      exact (hoctet w hw).1
    rw [List.length_map, hsix, smul_eq_mul] at hsum
    omega
  · intro c hc
    unfold isMacChar
    by_cases hcolon : c = ':'
    · simp [hcolon]
    · obtain ⟨w, hw, hcw⟩ := mem_fields hc hcolon
      simp [(hoctet w hw).2 c hcw]

theorem isMacAddress_octets {mac : Text} (h : isMacAddress mac = true) :
    (fields ':' mac).length = 6 ∧
      ∀ w ∈ fields ':' mac, w.length ≤ 2 ∧ ∀ c ∈ w, isHexDigit c = true := by
  unfold isMacAddress at h
  simp only [Bool.and_eq_true, beq_iff_eq, List.all_eq_true, decide_eq_true_eq] at h
  exact ⟨h.1, fun w hw => ⟨(h.2 w hw).1.2, (h.2 w hw).2⟩⟩

/-- INTERNAL: **the copy of a MAC address is the address itself**.
SOURCE: conf.c:1465 -/
theorem macCopy_of_isMacAddress {mac : Text} (h : isMacAddress mac = true) :
    macCopy mac = mac := by
  obtain ⟨hsix, hoctet⟩ := isMacAddress_octets h
  obtain ⟨hlen, hchars⟩ := six_octets hsix hoctet
  unfold macCopy
  rw [List.take_of_length_le hlen]
  exact List.takeWhile_eq_self_iff.mpr hchars

/-- INTERNAL: texts that differ in case only are read alike. -/
theorem readMac_of_sameCase {s t : Text} (h : sameCase s t = true) : readMac s = readMac t := by
  have hfields : (fields ':' s).map (List.map Char.toLower) =
      (fields ':' t).map (List.map Char.toLower) := by
    rw [← fields_map toLower_eq_colon, ← fields_map toLower_eq_colon, (sameCase_iff s t).mp h]
  have hread : ∀ u : Text, readMac u =
      unfields ':' (((fields ':' u).map (List.map Char.toLower)).map fun octet =>
        List.replicate (2 - octet.length) '0' ++ octet) := by
    intro u
    unfold readMac
    rw [List.map_map]
    congr 1
    refine List.map_congr_left fun w _ => ?_
    simp
  rw [hread, hread, hfields]

/-- INTERNAL: an address whose octets have two digits is read in lower case. -/
theorem readMac_of_isTwoDigitMac {mac : Text} (h : isTwoDigitMac mac = true) :
    readMac mac = mac.map Char.toLower := by
  unfold isTwoDigitMac at h
  simp only [Bool.and_eq_true, beq_iff_eq, List.all_eq_true] at h
  have hpad : (fields ':' mac).map (fun octet =>
      List.replicate (2 - octet.length) '0' ++ octet.map Char.toLower) =
      fields ':' (mac.map Char.toLower) := by
    rw [fields_map toLower_eq_colon]
    refine List.map_congr_left fun w hw => ?_
    rw [(h.2 w hw).1]
    rfl
  unfold readMac
  rw [hpad, unfields_fields]

theorem isMacAddress_of_isTwoDigitMac {mac : Text} (h : isTwoDigitMac mac = true) :
    isMacAddress mac = true := by
  unfold isTwoDigitMac at h
  unfold isMacAddress
  simp only [Bool.and_eq_true, beq_iff_eq, List.all_eq_true, decide_eq_true_eq] at h ⊢
  refine ⟨h.1, fun w hw => ⟨?_, (h.2 w hw).2⟩⟩
  have := (h.2 w hw).1
  omega

/-- INTERNAL: **for octets of two digits, `iptables` and `strcasecmp` agree**. -/
theorem readMac_eq_iff {s t : Text} (hs : isTwoDigitMac s = true) (ht : isTwoDigitMac t = true) :
    readMac s = readMac t ↔ sameCase s t = true := by
  rw [readMac_of_isTwoDigitMac hs, readMac_of_isTwoDigitMac ht, sameCase_iff]

/-! ## The list functions -/

section Lists

variable (l : MacListName) (mac : Text) (config : Config)

/-- INTERNAL: **the outcomes of adding**: a text that is no address, a list that is not in use,
an address that is there up to case, and one that is new.
SOURCE: conf.c:1452-1484, 1560-1598, 1676-1714 -/
theorem addToMacList_outcomes :
    (checkMacFormat mac = false ∧ addToMacList l mac config = (-1, config)) ∨
    (config.usesList l = false ∧ addToMacList l mac config = (-1, config)) ∨
    (checkMacFormat mac = true ∧ config.usesList l = true ∧
      (∃ e ∈ config.maclist l, sameCase e (macCopy mac) = true) ∧
      addToMacList l mac config = (1, config)) ∨
    (checkMacFormat mac = true ∧ config.usesList l = true ∧
      (¬∃ e ∈ config.maclist l, sameCase e (macCopy mac) = true) ∧
      addToMacList l mac config =
        (0, config.setMaclist l (macCopy mac :: config.maclist l))) := by
  unfold addToMacList
  dsimp only
  cases hformat : checkMacFormat mac with
  | false => exact Or.inl ⟨rfl, rfl⟩
  | true =>
    cases huses : config.usesList l with
    | false => exact Or.inr (Or.inl ⟨rfl, rfl⟩)
    | true =>
      rw [← List.any_eq_true]
      cases hany : (config.maclist l).any (sameCase · (macCopy mac)) with
      | true => exact Or.inr (Or.inr (Or.inl ⟨rfl, rfl, rfl, rfl⟩))
      | false => exact Or.inr (Or.inr (Or.inr ⟨rfl, rfl, Bool.false_ne_true, rfl⟩))

/-- INTERNAL: **the outcomes of removing**: a text that is no address, a list that is not in
use, an address that is not there, and one that is taken out where it first is.
SOURCE: conf.c:1490-1531, 1604-1650, 1720-1766 -/
theorem removeFromMacList_outcomes :
    (checkMacFormat mac = false ∧ removeFromMacList l mac config = (-1, config)) ∨
    (config.usesList l = false ∧ removeFromMacList l mac config = (-1, config)) ∨
    (checkMacFormat mac = true ∧ config.usesList l = true ∧
      (¬∃ e ∈ config.maclist l, sameCase e (macCopy mac) = true) ∧
      removeFromMacList l mac config = (-1, config)) ∨
    (checkMacFormat mac = true ∧ config.usesList l = true ∧
      ∃ e l₁ l₂, config.maclist l = l₁ ++ e :: l₂ ∧ sameCase e (macCopy mac) = true ∧
        removeFromMacList l mac config = (0, config.setMaclist l (l₁ ++ l₂))) := by
  unfold removeFromMacList
  dsimp only
  cases hformat : checkMacFormat mac with
  | false => exact Or.inl ⟨rfl, rfl⟩
  | true =>
    cases huses : config.usesList l with
    | false => exact Or.inr (Or.inl ⟨rfl, rfl⟩)
    | true =>
      rw [← List.any_eq_true]
      cases hany : (config.maclist l).any (sameCase · (macCopy mac)) with
      | false => exact Or.inr (Or.inr (Or.inl ⟨rfl, rfl, Bool.false_ne_true, rfl⟩))
      | true =>
        obtain ⟨d, hmem, hsame⟩ := List.any_eq_true.mp hany
        obtain ⟨e, l₁, l₂, -, he, hl, herase⟩ :=
          List.exists_of_eraseP (p := (sameCase · (macCopy mac))) hmem hsame
        refine Or.inr (Or.inr (Or.inr ⟨rfl, rfl, e, l₁, l₂, hl, he, ?_⟩))
        rw [herase]
        rfl

end Lists

end WifiCat.Analysis
