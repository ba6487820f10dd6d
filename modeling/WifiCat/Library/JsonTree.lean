import WifiCat.Library.JsonText
import WifiCat.Library.Preorder

/-!
# JSON documents as they are written

A document is a tree: an array has its elements for children, and an object has its keys, each with
its value.  `Written` says which texts write one, to any depth, with blanks between any two of its
pieces.  Strings and numbers are kept as they are spelled.
-/

set_option autoImplicit false

namespace JsonText

open Scan LabelTree

/-- What stands at a place of a document. -/
inductive Label
  | object
  | array
  | string (body : Text)
  | word (text : Text)
deriving DecidableEq, Repr

abbrev Document := LabelTree Label

/-- A string, which has no children unless it is a key. -/
def Document.string (body : Text) : Document := .node (.string body) []
def Document.word (text : Text) : Document := .node (.word text) []
def Document.array (elements : List Document) : Document := .node .array elements
def Document.object (members : List Document) : Document := .node .object members

/-- A member of an object. -/
def Document.member (key : Text) (value : Document) : Document := .node (.string key) [value]

/-- What a text can write: a document, an element or a member with blanks around it, or what stands
between two brackets. -/
inductive Part
  | value (document : Document)
  | item (keyed : Bool) (document : Document)
  | items (keyed : Bool) (documents : List Document)

/-- The text writes the part of a document. -/
inductive Written : Part → Text → Prop
  | string {body : Text} (h : StringBody body) :
      Written (.value (.string body)) ('"' :: (body ++ ['"']))
  | word {text : Text} (h : Word text) : Written (.value (.word text)) text
  | array {es : List Document} {s : Text} (h : Written (.items false es) s) :
      Written (.value (.array es)) ('[' :: (s ++ [']']))
  | object {ms : List Document} {s : Text} (h : Written (.items true ms) s) :
      Written (.value (.object ms)) ('\x7b' :: (s ++ ['\x7d']))
  | element {v : Document} {l s r : Text} (hl : Blank l) (h : Written (.value v) s) (hr : Blank r) :
      Written (.item false v) (l ++ s ++ r)
  | member {key : Text} {v : Document} {k s : Text} (hk : Padded (SpellsString key) k)
      (h : Written (.item false v) s) : Written (.item true (.member key v)) (k ++ ':' :: s)
  | none {keyed : Bool} {b : Text} (h : Blank b) : Written (.items keyed []) b
  | one {keyed : Bool} {d : Document} {s : Text} (h : Written (.item keyed d) s) :
      Written (.items keyed [d]) s
  | more {keyed : Bool} {d e : Document} {ds : List Document} {s s' : Text}
      (h : Written (.item keyed d) s) (hs : Written (.items keyed (e :: ds)) s') :
      Written (.items keyed (d :: e :: ds)) (s ++ ',' :: s')

/-- The text writes the document, with blanks around it. -/
def WritesDocument (d : Document) (s : Text) : Prop := Written (.item false d) s

end JsonText
