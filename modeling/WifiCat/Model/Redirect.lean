import WifiCat.Model.FirstContact
import WifiCat.Model.Http

/-!
# The redirect after authentication

The value of a request's variable is percent-decoded in its place by `libhttpd`, copied into the
auth target, and written behind `Location: http://` into the headers of the response.
-/

set_option autoImplicit false

namespace WifiCat

open Scan

/-- `_httpd_from_hex`: anything else is taken for a small letter.  A `char` has 8 bits.
SOURCE: protocol.c:281-287 -/
def httpdFromHex (c : Char) : ℕ :=
  if '0' ≤ c ∧ c ≤ '9' then c.toNat - 48
  else if 'A' ≤ c ∧ c ≤ 'F' then c.toNat - 55
  else (c.toNat + 256 - 87) % 256

/-- The loop of `_httpd_unescape`, with what was written so far and what is left to read.  Behind
a last `%` nothing is assigned: what stood in the place stays.
SOURCE: protocol.c:298-312 -/
def httpdUnescapeLoop (str : Text) : Text → Text → Text
  | out, [] => out
  | out, ['%'] => out ++ [str.getD out.length '\x00']
  | out, ['%', a] => out ++ [Char.ofNat (httpdFromHex a * 16 % 256)]
  | out, '%' :: a :: b :: rest =>
    httpdUnescapeLoop str (out ++ [Char.ofNat ((httpdFromHex a * 16 + httpdFromHex b) % 256)]) rest
  | out, '+' :: rest => httpdUnescapeLoop str (out ++ [' ']) rest
  | out, c :: rest => httpdUnescapeLoop str (out ++ [c]) rest

/-- `_httpd_unescape`.
SOURCE: protocol.c:289-316 -/
def httpdUnescape (str : Text) : Text := httpdUnescapeLoop str [] str

/-- The value of a variable is a string that ends at its first NUL.
SOURCE: protocol.c:369-370, 400-401 -/
def httpdValue (raw : Text) : Text := cString (httpdUnescape raw)

/-- The redirect string of a request.
SOURCE: http.c:602-612 -/
def redirectString (r : HttpRequest) : Text := (httpDecodeAuthtarget r).redir.getD []

end WifiCat
