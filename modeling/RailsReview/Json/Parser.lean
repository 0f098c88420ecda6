import RailsReview.Json.Basic

/-!
# Reading JSON text

The text is cut into tokens by a machine that sees one character at a time; a second machine, with
the open containers on a stack, turns tokens into a value. Both read their input once from left to
right, so both end on every text.
-/
namespace RailsReview.Json

inductive Token where
  | openArray
  | closeArray
  | openObject
  | closeObject
  | comma
  | colon
  | text (s : String)
  | scalar (v : Json)

/-- Where the token machine stands. Collected characters are in reverse order. -/
inductive Mode where
  | between
  | word (letters : List Char)
  | numeral (digits : List Char)
  | text (done : List Char)
  | escape (done : List Char)
  /-- Inside a four-digit escape; `high` is the high surrogate it has to complete. -/
  | unit (done : List Char) (high : Option Nat) (count : Nat) (value : Nat)
  /-- After a high surrogate: the escape of its partner must follow. -/
  | partner (done : List Char) (high : Nat) (sawBackslash : Bool)

/-- The tokens found so far, last first, and the mode. -/
structure Lexer where
  tokens : List Token
  mode : Mode

namespace Lexer

def isSpace (c : Char) : Bool := c == ' ' || c == '\t' || c == '\n' || c == '\r'

def isNumeralChar (c : Char) : Bool :=
  c.isDigit || c == '-' || c == '+' || c == '.' || c == 'e' || c == 'E'

def punctuation? : Char → Option Token
  | '[' => some .openArray
  | ']' => some .closeArray
  | '{' => some .openObject
  | '}' => some .closeObject
  | ',' => some .comma
  | ':' => some .colon
  | _ => none

def wordValue? : String → Option Json
  | "true" => some (.bool true)
  | "false" => some (.bool false)
  | "null" => some .null
  | _ => none

/-- The character that a one-letter escape stands for. -/
def escaped? : Char → Option Char
  | '"' => some '"'
  | '\\' => some '\\'
  | '/' => some '/'
  | 'b' => some '\x08'
  | 'f' => some '\x0c'
  | 'n' => some '\n'
  | 'r' => some '\r'
  | 't' => some '\t'
  | _ => none

def hexDigit? (c : Char) : Option Nat :=
  if c.isDigit then some (c.toNat - '0'.toNat)
  else if 'a' ≤ c && c ≤ 'f' then some (c.toNat - 'a'.toNat + 10)
  else if 'A' ≤ c && c ≤ 'F' then some (c.toNat - 'A'.toNat + 10)
  else none

def isHighSurrogate (n : Nat) : Bool := 0xD800 ≤ n && n ≤ 0xDBFF

def isLowSurrogate (n : Nat) : Bool := 0xDC00 ≤ n && n ≤ 0xDFFF

/-- The mode after a complete four-digit escape; a surrogate without partner is refused. -/
def finishUnit? (done : List Char) (high : Option Nat) (n : Nat) : Option Mode :=
  match high with
  | some h =>
    if isLowSurrogate n then
      some (.text (Char.ofNat (0x10000 + (h - 0xD800) * 0x400 + (n - 0xDC00)) :: done))
    else none
  | none =>
    if isHighSurrogate n then some (.partner done n false)
    else if isLowSurrogate n then none
    else some (.text (Char.ofNat n :: done))

/-- A character outside every token either separates tokens or begins one. -/
def begin? (tokens : List Token) (c : Char) : Option Lexer :=
  if isSpace c then some ⟨tokens, .between⟩
  else if c == '"' then some ⟨tokens, .text []⟩
  else match punctuation? c with
    | some t => some ⟨t :: tokens, .between⟩
    | none =>
      if isNumeralChar c then some ⟨tokens, .numeral [c]⟩
      else if c.isAlpha then some ⟨tokens, .word [c]⟩
      else none

def finishWord? (tokens : List Token) (letters : List Char) : Option (List Token) :=
  (wordValue? (String.ofList letters.reverse)).map (.scalar · :: tokens)

def finishNumeral? (tokens : List Token) (digits : List Char) : Option (List Token) :=
  ((Numeral.ofChars? digits.reverse).bind Numeral.toJson?).map (.scalar · :: tokens)

def step? (l : Lexer) (c : Char) : Option Lexer :=
  match l.mode with
  | .between => begin? l.tokens c
  | .word letters =>
    if c.isAlpha then some ⟨l.tokens, .word (c :: letters)⟩
    else (finishWord? l.tokens letters).bind (begin? · c)
  | .numeral digits =>
    if isNumeralChar c then some ⟨l.tokens, .numeral (c :: digits)⟩
    else (finishNumeral? l.tokens digits).bind (begin? · c)
  | .text done =>
    if c == '"' then some ⟨.text (String.ofList done.reverse) :: l.tokens, .between⟩
    else if c == '\\' then some ⟨l.tokens, .escape done⟩
    else if c.toNat < 0x20 then none
    else some ⟨l.tokens, .text (c :: done)⟩
  | .escape done =>
    if c == 'u' then some ⟨l.tokens, .unit done none 0 0⟩
    else (escaped? c).map fun e => ⟨l.tokens, .text (e :: done)⟩
  | .unit done high count value =>
    (hexDigit? c).bind fun d =>
      let value := value * 16 + d
      if count + 1 < 4 then some ⟨l.tokens, .unit done high (count + 1) value⟩
      else (finishUnit? done high value).map fun m => ⟨l.tokens, m⟩
  | .partner done high sawBackslash =>
    if sawBackslash then
      if c == 'u' then some ⟨l.tokens, .unit done (some high) 0 0⟩ else none
    else if c == '\\' then some ⟨l.tokens, .partner done high true⟩
    else none

/-- The tokens once the text has ended; a text that ends inside a string has none. -/
def finish? (l : Lexer) : Option (List Token) :=
  match l.mode with
  | .between => some l.tokens
  | .word letters => finishWord? l.tokens letters
  | .numeral digits => finishNumeral? l.tokens digits
  | _ => none

end Lexer

def Token.ofChars? (cs : List Char) : Option (List Token) :=
  ((cs.foldlM Lexer.step? ⟨[], .between⟩).bind Lexer.finish?).map List.reverse

/-- An open container with what it holds so far, last first. -/
inductive Frame where
  | array (items : List Json)
  | object (fields : List (String × Json)) (key : String)

/-- What the next token may be. -/
inductive Expectation where
  | value
  /-- A value or the end of the array just opened. -/
  | valueOrClose
  | key
  /-- A key or the end of the object just opened. -/
  | keyOrClose
  | colon
  | commaOrClose
  | nothing (result : Json)

structure Builder where
  frames : List Frame
  expect : Expectation

namespace Builder

/-- Puts a finished value where it belongs. -/
def place (v : Json) : List Frame → Builder
  | [] => ⟨[], .nothing v⟩
  | .array items :: rest => ⟨.array (v :: items) :: rest, .commaOrClose⟩
  | .object fields key :: rest => ⟨.object ((key, v) :: fields) "" :: rest, .commaOrClose⟩

/-- Opens a container unless `limit` containers are already open. -/
def push? (limit : Nat) (b : Builder) (f : Frame) (e : Expectation) : Option Builder :=
  if b.frames.length < limit then some ⟨f :: b.frames, e⟩ else none

def startValue? (limit : Nat) (b : Builder) : Token → Option Builder
  | .openArray => b.push? limit (.array []) .valueOrClose
  | .openObject => b.push? limit (.object [] "") .keyOrClose
  | .text s => some (place (.str s) b.frames)
  | .scalar v => some (place v b.frames)
  | _ => none

def closeTop? (b : Builder) : Token → Option Builder
  | .closeArray =>
    match b.frames with
    | .array items :: rest => some (place (.arr items.reverse) rest)
    | _ => none
  | .closeObject =>
    match b.frames with
    | .object fields _ :: rest => some (place (.obj fields.reverse) rest)
    | _ => none
  | _ => none

def takeKey? (b : Builder) : Token → Option Builder
  | .text s =>
    match b.frames with
    | .object fields _ :: rest => some ⟨.object fields s :: rest, .colon⟩
    | _ => none
  | _ => none

def step? (limit : Nat) (b : Builder) (t : Token) : Option Builder :=
  match b.expect with
  | .value => b.startValue? limit t
  | .valueOrClose => (b.closeTop? t).or (b.startValue? limit t)
  | .key => b.takeKey? t
  | .keyOrClose => (b.closeTop? t).or (b.takeKey? t)
  | .colon =>
    match t with
    | .colon => some ⟨b.frames, .value⟩
    | _ => none
  | .commaOrClose =>
    match t, b.frames with
    | .comma, .array _ :: _ => some ⟨b.frames, .value⟩
    | .comma, .object _ _ :: _ => some ⟨b.frames, .key⟩
    | t, _ => b.closeTop? t
  | .nothing _ => none

def result? (b : Builder) : Option Json :=
  match b.expect with
  | .nothing v => some v
  | _ => none

end Builder

/-- The value that the whole text writes, with at most `limit` containers inside each other. -/
def parse? (limit : Nat) (text : String) : Option Json :=
  (Token.ofChars? text.toList).bind fun tokens =>
    (tokens.foldlM (Builder.step? limit) ⟨[], .value⟩).bind Builder.result?

/-- Documents may nest this many containers. -/
def nestingLimit : Nat := 127

end RailsReview.Json
