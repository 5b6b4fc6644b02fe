import SimStudio.Json

/-!
# Compact JSON Text

A JSON value on one line, without blanks: `{"a":[1,2.5],"b":null}`.

Members come in the order in which the object holds them. In a string only
what the grammar forbids is escaped: the quote, the backslash and the
characters below the space, five of which have a letter of their own. Floats
are written with their shortest digits, with an exponent from `1e+16` upward
and below `1e-5`.

## Main definitions

* `JsonNumber.layout`: The decisions of the format about floats.
* `JsonNumber.compact`, `Json.compact`: The text of a number, of a value.
* `Json.quoted`: The text of a string.
-/

namespace SimStudio

/-- Floats keep a point, a half goes to the even digit, and from the order 16
    upward and below the order -5 there is an exponent with a sign. -/
def JsonNumber.layout : FloatLayout := ⟨.even, some (-5, 15), true, true⟩

/-- The text of a number. -/
def JsonNumber.compact : JsonNumber → String
  | .int i _ => toString i
  | .float negative a => layout.signedText negative a

namespace Json

/-- A character inside a quoted string. -/
def escaped (c : Char) : List Char :=
  match c with
  | '"' => ['\\', '"']
  | '\\' => ['\\', '\\']
  | '\x08' => ['\\', 'b']
  | '\x0c' => ['\\', 'f']
  | '\n' => ['\\', 'n']
  | '\r' => ['\\', 'r']
  | '\t' => ['\\', 't']
  | c => if c.toNat < 0x20 then '\\' :: 'u' :: Digits.padded 16 4 false c.toNat else [c]

/-- A string in quotes. -/
def quoted (s : String) : String :=
  String.ofList ('"' :: (s.toList.flatMap escaped ++ ['"']))

mutual

/-- The text of a value. -/
def compact : Json → String
  | null => "null"
  | bool true => "true"
  | bool false => "false"
  | number n => n.compact
  | text s => quoted s
  | array items => "[" ++ ",".intercalate (compactItems items) ++ "]"
  | object members => "\x7b" ++ ",".intercalate (compactMembers members) ++ "\x7d"

/-- The texts of the items of an array. -/
def compactItems : List Json → List String
  | [] => []
  | v :: rest => compact v :: compactItems rest

/-- The texts of the members of an object. -/
def compactMembers : List (String × Json) → List String
  | [] => []
  | (key, v) :: rest => (quoted key ++ ":" ++ compact v) :: compactMembers rest

end

end Json

end SimStudio
