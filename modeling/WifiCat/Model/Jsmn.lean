import WifiCat.Library.Scan

/-!
# The JSON tokenizer

`jsmn.c`, as it is compiled here: not strict, and without links to parents.  A token is a
piece of the text; the tokens of a text stand in the order in which the pieces start.  A
container is open, with no end yet, until its closing bracket.
-/

set_option autoImplicit false

namespace WifiCat

open Scan

/-- `jsmntype_t`.
SOURCE: jsmn.h:17-22 -/
inductive JsmnType
  | primitive | object | array | string
deriving DecidableEq, Repr

/-- `jsmnerr_t`.
SOURCE: jsmn.h:24-31 -/
inductive JsmnErr
  | nomem | inval | part
deriving DecidableEq, Repr

/-- `jsmntok_t`; `stop` is its `end`, which is -1 while a container is open.
SOURCE: jsmn.h:39-47 -/
structure JsmnToken where
  type : JsmnType
  start : ℕ
  stop : Option ℕ
  size : ℕ
deriving DecidableEq, Repr

/-- `start != -1 && end == -1`; every token that is read here has a start. -/
def JsmnToken.isOpen (tok : JsmnToken) : Bool := tok.stop.isNone

/-- An object or an array. -/
def JsmnToken.isContainer (tok : JsmnToken) : Bool :=
  decide (tok.type = .array) || decide (tok.type = .object)

/-- `jsmn_parser` with the tokens it has allocated; `toksuper` is the index of the token that
counts the next one, `none` for -1.
SOURCE: jsmn.h:53-57 -/
structure JsmnParser where
  tokens : List JsmnToken := []
  toksuper : Option ℕ := none
deriving DecidableEq, Repr

/-- The last token with a property: `for (i = toknext - 1; i >= 0; i--)`. -/
def lastWhere (q : JsmnToken → Bool) : List JsmnToken → Option ℕ
  | [] => none
  | tok :: toks =>
    match lastWhere q toks with
    | some i => some (i + 1)
    | none => if q tok then some 0 else none

/-- Allocate a token, and count it in the superior one.
SOURCE: jsmn.c:8-21, 171-178, 233-235, 284-286 -/
def JsmnParser.add (numTokens : ℕ) (tok : JsmnToken) (p : JsmnParser) : Except JsmnErr JsmnParser :=
  if numTokens ≤ p.tokens.length then .error .nomem
  else
    let tokens := p.tokens ++ [tok]
    .ok { p with
      tokens := match p.toksuper with
        | none => tokens
        | some k => tokens.modify k fun t => { t with size := t.size + 1 } }

/-- A character that ends a primitive.
SOURCE: jsmn.c:46-52 -/
def endsPrimitive (c : Char) : Bool :=
  c == ':' || c == '\t' || c == '\r' || c == '\n' || c == ' ' || c == ',' || c == ']' || c == '}'

/-- The length of the primitive at the beginning of a text.
SOURCE: jsmn.c:44-58 -/
def jsmnPrimitive : Text → Except JsmnErr ℕ
  | [] => .ok 0
  | c :: s =>
    if endsPrimitive c then .ok 0
    else if c.toNat < 32 || 127 ≤ c.toNat then .error .inval
    else (jsmnPrimitive s).map (· + 1)

/-- The number of characters before the quote that ends a string; the first argument is how
many hexadecimal digits a `\u` still expects.
SOURCE: jsmn.c:95-150 -/
def jsmnString : ℕ → Text → Except JsmnErr ℕ
  | _, [] => .error .part
  | n + 1, c :: s => if isHexDigit c then (jsmnString n s).map (· + 1) else .error .inval
  | 0, '"' :: _ => .ok 0
  | 0, '\\' :: c :: s =>
    if c ∈ ['"', '/', '\\', 'b', 'f', 'r', 'n', 't'] then (jsmnString 0 s).map (· + 2)
    else if c = 'u' then (jsmnString 4 s).map (· + 2)
    else .error .inval
  | 0, _ :: s => (jsmnString 0 s).map (· + 1)

/-- A closing bracket.
SOURCE: jsmn.c:184-229 -/
def JsmnParser.close (type : JsmnType) (pos : ℕ) (p : JsmnParser) : Except JsmnErr JsmnParser :=
  match lastWhere JsmnToken.isOpen p.tokens with
  | none => .error .inval
  | some i =>
    if (p.tokens[i]?).map JsmnToken.type ≠ some type then .error .inval
    else
      let tokens := p.tokens.modify i fun t => { t with stop := some (pos + 1) }
      .ok { tokens := tokens, toksuper := lastWhere JsmnToken.isOpen tokens }

/-- A comma.  Without a superior token the source reads the one before the first; whatever it
finds there, nothing is open then, and nothing changes.
SOURCE: jsmn.c:242-259 -/
def JsmnParser.comma (p : JsmnParser) : JsmnParser :=
  if (p.toksuper.bind (p.tokens[·]?)).any JsmnToken.isContainer then p
  else
    match lastWhere (fun t => t.isContainer && t.isOpen) p.tokens with
    | none => p
    | some i => { p with toksuper := some i }

/-- One round of the loop, at the character `c` with `s` behind it: how many characters more
it takes, and the parser.
SOURCE: jsmn.c:160-290 -/
def jsmnStep (numTokens pos : ℕ) (c : Char) (s : Text) (p : JsmnParser) :
    Except JsmnErr (ℕ × JsmnParser) :=
  if c = '{' ∨ c = '[' then
    let type := if c = '{' then .object else .array
    match p.add numTokens { type := type, start := pos, stop := none, size := 0 } with
    | .error e => .error e
    | .ok p => .ok (0, { p with toksuper := some (p.tokens.length - 1) })
  else if c = '}' ∨ c = ']' then
    match p.close (if c = '}' then .object else .array) pos with
    | .error e => .error e
    | .ok p => .ok (0, p)
  else if c = '"' then
    match jsmnString 0 s with
    | .error e => .error e
    | .ok n =>
      match p.add numTokens
        { type := .string, start := pos + 1, stop := some (pos + 1 + n), size := 0 } with
      | .error e => .error e
      | .ok p => .ok (n + 1, p)
  else if c = '\t' ∨ c = '\r' ∨ c = '\n' ∨ c = ' ' then .ok (0, p)
  else if c = ':' then
    .ok (0, { p with toksuper := if p.tokens = [] then none else some (p.tokens.length - 1) })
  else if c = ',' then .ok (0, p.comma)
  else
    match jsmnPrimitive (c :: s) with
    | .error e => .error e
    | .ok n =>
      match p.add numTokens { type := .primitive, start := pos, stop := some (pos + n), size := 0 } with
      | .error e => .error e
      -- the loop goes on at the character behind the primitive
      | .ok p => .ok (n - 1, p)

/-- The loop of `jsmn_parse`; a round takes at least one character.
SOURCE: jsmn.c:160-290 -/
def jsmnLoop (numTokens : ℕ) : ℕ → ℕ → Text → JsmnParser → Except JsmnErr JsmnParser
  | 0, _, _, p => .ok p
  | _ + 1, _, [], p => .ok p
  | fuel + 1, pos, c :: s, p =>
    match jsmnStep numTokens pos c s p with
    | .error e => .error e
    | .ok (n, p) => jsmnLoop numTokens fuel (pos + 1 + n) (s.drop n) p

/-- `jsmn_parse` on a text without NUL: the tokens, whose number it returns.
SOURCE: jsmn.c:153-300 -/
def jsmnParse (numTokens : ℕ) (js : Text) : Except JsmnErr (List JsmnToken) :=
  match jsmnLoop numTokens js.length 0 js {} with
  | .error e => .error e
  | .ok p => if p.tokens.any JsmnToken.isOpen then .error .part else .ok p.tokens

/-- The text of a token. -/
def JsmnToken.text (js : Text) (tok : JsmnToken) : Text :=
  (js.drop tok.start).take (tok.stop.getD 0 - tok.start)

end WifiCat
