import QuerySignature.Json.Number

namespace QuerySignature

/-! # Reading JSON

Reading has two passes, each a single walk over its input. The first cuts the text into tokens,
with strings and numbers already decoded. The second builds the value, holding the lists and
objects that are still open on a stack; a text is refused when more than a given number of them
are open at once.
-/

namespace Json

/-! ## Tokens -/

/-- A token of JSON text. -/
inductive Token where
  | listOpen
  | listClose
  | objectOpen
  | objectClose
  | comma
  | colon
  | scalar (value : Json)

/-- What the cutter is in the middle of. -/
inductive Cutting where
  | between
  /-- Inside quotes, the characters so far in reverse. -/
  | quoted (done : List Char)
  /-- After a backslash. -/
  | escape (done : List Char)
  /-- Inside `\u`: the first half of a pair if one is open, how many digits are missing, the
  value. -/
  | code (done : List Char) (high : Option Nat) (missing : Nat) (value : Nat)
  /-- After the first half of a pair, which a backslash must follow. -/
  | pairEscape (done : List Char) (high : Nat)
  /-- After that backslash. -/
  | pairCode (done : List Char) (high : Nat)
  /-- Inside a number or a word, the characters so far in reverse. -/
  | bare (done : List Char)

/-- Whether a character may stand between tokens. -/
def isSpace (c : Char) : Bool := c == ' ' || c == '\n' || c == '\t' || c == '\r'

/-- The token of a character that is a token by itself. -/
def punctuation? (c : Char) : Option Token :=
  match c with
  | '[' => some .listOpen
  | ']' => some .listClose
  | '\x7b' => some .objectOpen
  | '\x7d' => some .objectClose
  | ',' => some .comma
  | ':' => some .colon
  | _ => none

/-- The token of a number or a word. -/
def bareToken? (chars : List Char) : Option Token :=
  if chars = ['n', 'u', 'l', 'l'] then some (.scalar .null)
  else if chars = ['t', 'r', 'u', 'e'] then some (.scalar (.bool true))
  else if chars = ['f', 'a', 'l', 's', 'e'] then some (.scalar (.bool false))
  else (number? chars).map .scalar

/-- The value of a hexadecimal digit. -/
def hexValue? (c : Char) : Option Nat :=
  if c.isDigit then some (c.toNat - '0'.toNat)
  else if 'a' ≤ c ∧ c ≤ 'f' then some (c.toNat - 'a'.toNat + 10)
  else if 'A' ≤ c ∧ c ≤ 'F' then some (c.toNat - 'A'.toNat + 10)
  else none

/-- The character that a one-letter escape stands for. -/
def escaped? (c : Char) : Option Char :=
  match c with
  | '"' => some '"'
  | '\\' => some '\\'
  | '/' => some '/'
  | 'b' => some '\x08'
  | 'f' => some '\x0c'
  | 'n' => some '\n'
  | 'r' => some '\r'
  | 't' => some '\t'
  | _ => none

/-- What follows a completed `\u`: half of a pair must meet its other half. -/
def closeCode? (done : List Char) (high : Option Nat) (value : Nat) : Option Cutting :=
  match high with
  | some first =>
    if 0xDC00 ≤ value ∧ value ≤ 0xDFFF then
      some (.quoted (Char.ofNat (0x10000 + (first - 0xD800) * 0x400 + (value - 0xDC00)) :: done))
    else none
  | none =>
    if 0xD800 ≤ value ∧ value ≤ 0xDBFF then some (.pairEscape done value)
    else if 0xDC00 ≤ value ∧ value ≤ 0xDFFF then none
    else some (.quoted (Char.ofNat value :: done))

/-- Takes a character between tokens. -/
def cutBetween (c : Char) : List Token × Cutting :=
  if isSpace c then ([], .between)
  else if c = '"' then ([], .quoted [])
  else match punctuation? c with
    | some token => ([token], .between)
    | none => ([], .bare [c])

/-- Takes one character; the tokens that it completes and the state after it. -/
def cut? (state : Cutting) (c : Char) : Option (List Token × Cutting) :=
  match state with
  | .between => some (cutBetween c)
  | .bare done =>
    if isSpace c || c == '"' || (punctuation? c).isSome then
      (bareToken? done.reverse).map fun token =>
        let (tokens, next) := cutBetween c
        (token :: tokens, next)
    else some ([], .bare (c :: done))
  | .quoted done =>
    if c = '"' then some ([.scalar (.text (String.ofList done.reverse))], .between)
    else if c = '\\' then some ([], .escape done)
    else if c.toNat < 0x20 then none
    else some ([], .quoted (c :: done))
  | .escape done =>
    if c = 'u' then some ([], .code done none 4 0)
    else (escaped? c).map fun plain => ([], .quoted (plain :: done))
  | .code done high missing value =>
    (hexValue? c).bind fun digit =>
      let next := value * 16 + digit
      if missing ≤ 1 then (closeCode? done high next).map fun state => ([], state)
      else some ([], .code done high (missing - 1) next)
  | .pairEscape done high => if c = '\\' then some ([], .pairCode done high) else none
  | .pairCode done high => if c = 'u' then some ([], .code done (some high) 4 0) else none

/-- Takes one character and adds the tokens that it completes to those so far, which are in
reverse. -/
def cutNext? (state : Cutting × List Token) (c : Char) : Option (Cutting × List Token) :=
  (cut? state.1 c).map fun (tokens, next) => (next, tokens.reverse ++ state.2)

/-- The tokens of a text. -/
def tokens? (text : List Char) : Option (List Token) :=
  match text.foldlM cutNext? (.between, []) with
  | some (.between, done) => some done.reverse
  | some (.bare chars, done) => (bareToken? chars.reverse).map fun token => (token :: done).reverse
  | _ => none

/-! ## Values -/

/-- A list or object whose end has not been read; items are in reverse. -/
inductive Open where
  | items (done : List Json)
  | fields (done : List (String × Json)) (name : String)

/-- What may come next. -/
inductive Expecting where
  | value
  | valueOrClose
  | name
  | nameOrClose
  | colon
  | commaOrClose
  | nothing (value : Json)

/-- Hands a complete value to the innermost open list or object. -/
def complete (value : Json) : List Open → List Open × Expecting
  | [] => ([], .nothing value)
  | .items done :: rest => (.items (value :: done) :: rest, .commaOrClose)
  | .fields done name :: rest => (.fields (put name value done) "" :: rest, .commaOrClose)

/-- Closes the innermost open list or object with the token that fits it. -/
def close? (token : Token) : List Open → Option (List Open × Expecting)
  | .items done :: rest =>
    match token with
    | .listClose => some (complete (.list done.reverse) rest)
    | _ => none
  | .fields done _ :: rest =>
    match token with
    | .objectClose => some (complete (.object done) rest)
    | _ => none
  | [] => none

/-- Starts a value with a token. -/
def start? (limit : Nat) (token : Token) (stack : List Open) : Option (List Open × Expecting) :=
  match token with
  | .scalar value => some (complete value stack)
  | .listOpen => if stack.length < limit then some (.items [] :: stack, .valueOrClose) else none
  | .objectOpen =>
    if stack.length < limit then some (.fields [] "" :: stack, .nameOrClose) else none
  | _ => none

/-- Takes a field's name. -/
def name? (token : Token) (stack : List Open) : Option (List Open × Expecting) :=
  match token, stack with
  | .scalar (.text name), .fields done _ :: rest => some (.fields done name :: rest, .colon)
  | _, _ => none

/-- Takes one token. -/
def step? (limit : Nat) (state : List Open × Expecting) (token : Token) :
    Option (List Open × Expecting) :=
  match state with
  | (stack, .value) => start? limit token stack
  | (stack, .valueOrClose) => (close? token stack).or (start? limit token stack)
  | (stack, .name) => name? token stack
  | (stack, .nameOrClose) => (close? token stack).or (name? token stack)
  | (stack, .colon) =>
    match token with
    | .colon => some (stack, .value)
    | _ => none
  | (stack, .commaOrClose) =>
    match token, stack with
    | .comma, .items _ :: _ => some (stack, .value)
    | .comma, .fields _ _ :: _ => some (stack, .name)
    | _, _ => close? token stack
  | (_, .nothing _) => none

/-- The value of a row of tokens. -/
def build? (limit : Nat) (tokens : List Token) : Option Json :=
  match tokens.foldlM (step? limit) ([], .value) with
  | some (_, .nothing value) => some value
  | _ => none

/-- How many lists and objects may be open at once in a document. -/
def nestingLimit : Nat := 127

/-- Reads a text that is one JSON value with at most `limit` lists and objects open at once. -/
def readWithin? (limit : Nat) (text : String) : Option Json :=
  (tokens? text.toList).bind (build? limit)

/-- Reads a text that is one JSON value. -/
def read? (text : String) : Option Json := readWithin? nestingLimit text

end Json

end QuerySignature
