import SimStudio.Yaml.Token
import SimStudio.Number.Digits

/-!
# Anchors, Tags and Directives

The lexemes that name things: `&anchor`, `*alias`, `!tag`, and the directives
`%YAML` and `%TAG` at the top of a document.

A tag is written in full between angle brackets, or as a handle (`!`, `!!` or
`!name!`) and a rest. The rest is a piece of an address, in which bytes may be
written as a percent sign and two hexadecimal digits.

## Main definitions

* `Yaml.scanName`: The name of an anchor or alias.
* `Yaml.scanAddress`: A piece of an address.
* `Yaml.scanTag`: A tag, as a handle and a rest.
* `Yaml.scanDirective`: A directive line.
-/

namespace SimStudio

namespace Yaml

/-- The characters besides gaps that may follow a name. -/
def followsName (c : Char) : Bool :=
  c == '?' || c == ':' || c == ',' || c == ']' || c == '}' || c == '%' || c == '@' || c == '`'

/-- Read the name of an anchor or alias behind its mark. -/
def scanName (c : Cursor) : Option (String × Cursor) :=
  let (name, c) := c.run isWord
  let ended := match c.rest with
    | [] => true
    | x :: _ => isGap x || followsName x
  if name.isEmpty || !ended then none else some (String.ofList name, c)

/-- The characters of an address. Commas and square brackets are among them
    only inside a tag that is written in full. -/
def isAddressChar (full : Bool) (c : Char) : Bool :=
  isWord c || ";/?:@&=+$.%!~*'()".toList.contains c || (full && (c == ',' || c == '[' || c == ']'))

/-- The bytes that a run of percent escapes at the beginning stands for, with
    what follows it. -/
def percentBytes : List Char → Option (List UInt8 × List Char)
  | '%' :: a :: b :: cs =>
      match Digits.value? 16 [a, b], percentBytes cs with
      | some n, some (bytes, rest) => some (n.toUInt8 :: bytes, rest)
      | _, _ => none
  | '%' :: _ => none
  | cs => some ([], cs)

/-- The characters of an address with its percent escapes resolved. `fuel`
    bounds the number of pieces, of which there are no more than characters. -/
def resolveEscapes : (fuel : Nat) → List Char → Option (List Char)
  | 0, _ => none
  | _ + 1, [] => some []
  | fuel + 1, '%' :: cs => do
      let (bytes, rest) ← percentBytes ('%' :: cs)
      let text ← String.fromUTF8? ⟨bytes.toArray⟩
      let later ← resolveEscapes fuel rest
      pure (text.toList ++ later)
  | fuel + 1, c :: cs => do
      let later ← resolveEscapes fuel cs
      pure (c :: later)

/-- Read a piece of an address. -/
def scanAddress (full : Bool) (c : Cursor) : Option (List Char × Cursor) := do
  let (word, c) := c.run (isAddressChar full)
  let text ← resolveEscapes (word.length + 1) word
  pure (text, c)

/-- Read a handle: an exclamation mark, a name, and another mark if there is
    one. -/
def scanHandle (c : Cursor) : List Char × Cursor :=
  let (name, c) := (c.skip 1).run isWord
  match c.rest with
  | '!' :: _ => ('!' :: (name ++ ['!']), c.skip 1)
  | _ => ('!' :: name, c)

/-- Whether a handle has a mark at both ends. -/
def isClosedHandle (handle : List Char) : Bool :=
  1 < handle.length && handle.getLast? == some '!'

/-- Read a tag at its exclamation mark, as a handle and a rest. A tag in full,
    and the mark that stands alone, have no handle. -/
def scanTag (inFlow : Bool) (c : Cursor) : Option (String × String × Cursor) := do
  let (handle, rest, c) ←
    match c.rest with
    | '!' :: '<' :: _ => do
        let (rest, c) ← scanAddress true (c.skip 2)
        if rest.isEmpty || c.rest.head? ≠ some '>' then none
        pure ([], rest, c.skip 1)
    | _ => do
        let (handle, c) := scanHandle c
        let (more, c) ← scanAddress false c
        if isClosedHandle handle then
          if more.isEmpty then none
          pure (handle, more, c)
        else
          let rest := handle.drop 1 ++ more
          pure (if rest.isEmpty then ([], ['!'], c) else (['!'], rest, c))
  let ended := endsWord c.rest || (inFlow && c.rest.head? == some ',')
  if ended then pure (String.ofList handle, String.ofList rest, c) else none

/-- Read a number of at most nine digits. -/
def scanShortNumber (c : Cursor) : Option (Nat × Cursor) := do
  let (ds, c) := c.run Char.isDigit
  if 9 < ds.length then none
  let n ← Digits.value? 10 ds
  pure (n, c)

/-- Read a directive at its percent sign, with the rest of its line. -/
def scanDirective (c : Cursor) : Option (Token × Cursor) := do
  let (name, c) := (c.skip 1).run isWord
  if !endsWord c.rest then none
  let c := c.skipRun isSpace
  let (token, c) ←
    if name = "YAML".toList then do
      let (major, c) ← scanShortNumber c
      if c.rest.head? ≠ some '.' then none
      let (minor, c) ← scanShortNumber (c.skip 1)
      pure (Token.version major minor, c)
    else if name = "TAG".toList then do
      if c.rest.head? ≠ some '!' then none
      let (handle, c) := scanHandle c
      if !(isClosedHandle handle || handle = ['!']) then none
      if !(c.rest.head?.any isSpace) then none
      let (address, c) ← scanAddress true (c.skipRun isSpace)
      if address.isEmpty || !endsWord c.rest then none
      pure (Token.handle (String.ofList handle) (String.ofList address), c)
    else none
  let c ← c.finishLine?
  pure (token, c)

end Yaml

end SimStudio
