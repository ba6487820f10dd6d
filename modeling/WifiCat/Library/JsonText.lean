import WifiCat.Library.Scan

/-!
# Flat JSON objects as they are written

A flat object has strings and primitives for values, and arrays of strings.  `Spells` says
which texts write one: with blanks between any two of its pieces, with every escape JSON has
in a string, and with its members in any order.  The values are kept as they are spelled, so
that a string stands for the characters between its quotes.
-/

set_option autoImplicit false

namespace JsonText

open Scan

/-! ## Pieces -/

/-- White space between two pieces. -/
def isBlank (c : Char) : Bool := c == ' ' || c == '\t' || c == '\n' || c == '\r'

def Blank (s : Text) : Prop := ∀ c ∈ s, isBlank c = true

instance : DecidablePred Blank :=
  fun s => inferInstanceAs (Decidable (∀ c ∈ s, isBlank c = true))

/-- The characters that may follow a backslash, apart from `u`. -/
def escapes : List Char := ['"', '/', '\\', 'b', 'f', 'r', 'n', 't']

/-- What may stand between the quotes of a string. -/
inductive StringBody : Text → Prop
  | nil : StringBody []
  | plain {c : Char} {s : Text} (hquote : c ≠ '"') (hback : c ≠ '\\') (hnul : c ≠ '\x00')
      (hs : StringBody s) : StringBody (c :: s)
  | escape {c : Char} {s : Text} (hc : c ∈ escapes) (hs : StringBody s) :
      StringBody ('\\' :: c :: s)
  | unicode {a b c d : Char} {s : Text} (ha : isHexDigit a = true) (hb : isHexDigit b = true)
      (hc : isHexDigit c = true) (hd : isHexDigit d = true) (hs : StringBody s) :
      StringBody ('\\' :: 'u' :: a :: b :: c :: d :: s)

theorem StringBody.of_plain {s : Text} (h : ∀ c ∈ s, c ≠ '"' ∧ c ≠ '\\' ∧ c ≠ '\x00') :
    StringBody s := by
  induction s with
  | nil => exact .nil
  | cons c s ih =>
    obtain ⟨hquote, hback, hnul⟩ := h c List.mem_cons_self
    exact .plain hquote hback hnul (ih fun d hd => h d (List.mem_cons_of_mem _ hd))

/-- A character of a number, or of `true`, `false` and `null`. -/
def isWordChar (c : Char) : Bool := c.isAlphanum || c == '-' || c == '+' || c == '.'

/-- A primitive. -/
def Word (s : Text) : Prop := s ≠ [] ∧ ∀ c ∈ s, isWordChar c = true

instance : DecidablePred Word :=
  fun s => inferInstanceAs (Decidable (s ≠ [] ∧ ∀ c ∈ s, isWordChar c = true))

/-! ## Values and members -/

inductive Scalar
  | string (body : Text)
  | word (text : Text)
deriving DecidableEq, Repr

/-- The text of a scalar, without the quotes of a string. -/
def Scalar.text : Scalar → Text
  | .string body => body
  | .word text => text

inductive Value
  | scalar (value : Scalar)
  | array (elements : List Text)
deriving DecidableEq, Repr

structure Member where
  key : Text
  value : Value
deriving DecidableEq, Repr

/-! ## Spellings -/

/-- A spelling with blanks around it. -/
def Padded (P : Text → Prop) (s : Text) : Prop :=
  ∃ l m r, Blank l ∧ P m ∧ Blank r ∧ s = l ++ m ++ r

theorem Padded.of {P : Text → Prop} {s : Text} (h : P s) : Padded P s :=
  ⟨[], s, [], fun _ hc => (by cases hc), h, fun _ hc => (by cases hc), by simp⟩

/-- Spellings with commas between them, one at least. -/
inductive Separated {α : Type} (P : α → Text → Prop) : List α → Text → Prop
  | one {a : α} {s : Text} (h : P a s) : Separated P [a] s
  | cons {a : α} {as : List α} {s s' : Text} (h : P a s) (hs : Separated P as s') :
      Separated P (a :: as) (s ++ ',' :: s')

inductive SpellsString : Text → Text → Prop
  | mk {body : Text} (h : StringBody body) : SpellsString body ('"' :: (body ++ ['"']))

inductive SpellsScalar : Scalar → Text → Prop
  | string {body s : Text} (h : SpellsString body s) : SpellsScalar (.string body) s
  | word {w : Text} (h : Word w) : SpellsScalar (.word w) w

inductive SpellsValue : Value → Text → Prop
  | scalar {v : Scalar} {s : Text} (h : SpellsScalar v s) : SpellsValue (.scalar v) s
  | empty {b : Text} (h : Blank b) : SpellsValue (.array []) ('[' :: (b ++ [']']))
  | array {es : List Text} {s : Text}
      (h : Separated (fun e => Padded (SpellsString e)) es s) :
      SpellsValue (.array es) ('[' :: (s ++ [']']))

inductive SpellsMember : Member → Text → Prop
  | mk {m : Member} {k v : Text} (hk : Padded (SpellsString m.key) k)
      (hv : Padded (SpellsValue m.value) v) : SpellsMember m (k ++ ':' :: v)

inductive SpellsObject : List Member → Text → Prop
  | empty {b : Text} (h : Blank b) : SpellsObject [] ('\x7b' :: (b ++ ['\x7d']))
  | members {ms : List Member} {s : Text} (h : Separated SpellsMember ms s) :
      SpellsObject ms ('\x7b' :: (s ++ ['\x7d']))

/-- The text writes the object with these members, in this order. -/
def Spells (ms : List Member) (s : Text) : Prop := Padded (SpellsObject ms) s

/-! ## How many pieces there are -/

/-- The pieces of a value: itself, and its elements. -/
def Value.pieces : Value → ℕ
  | .scalar _ => 1
  | .array es => es.length + 1

/-- The pieces of an object: itself, and the key and the value of every member. -/
def pieces (ms : List Member) : ℕ := (ms.map fun m => m.value.pieces + 1).sum + 1

@[simp] theorem pieces_nil : pieces [] = 1 := rfl

@[simp] theorem pieces_cons (m : Member) (ms : List Member) :
    pieces (m :: ms) = m.value.pieces + 1 + pieces ms := by
  simp [pieces]
  omega

end JsonText
