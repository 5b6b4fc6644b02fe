import Mathlib.Algebra.Group.Nat.Even
import SimStudio.Proofs.Text.Quoting
import SimStudio.Proofs.Yaml.Quoted

/-!
# Reading Texts in Quotes

A reader of a text in quotes goes from left to right. It stops at the first quote, unless
a backslash comes before it, and what a backslash announces is one letter, or the letter
`u` with four digits. After every escape it has to be at the beginning of the next
character again, whatever that is: a quote behind a backslash, another backslash, digits
that would have continued the code before them.

`Escaped` says which forms a character can have in quotes, and `unquoteOn?_escaped` that
the reader takes exactly one form off, so that by induction on the text it takes off all of
them and then stops at the closing quote (`unquote?_quote`).

Where a reader only looks for the end, it counts the backslashes right before a quote. An
odd number of them means that the quote is a character of the text. Backslashes come in
pairs inside an escape, or one comes first and something else follows, so no character
changes the parity for those behind it (`even_backslashesAtEnd`).

## Main definitions

* `unquoteOn?`, `unquote?`: Read a text in quotes.
* `backslashesAtEnd`: The backslashes right before what follows a text.

## Theorems

* `unquote?_quote`: A text in quotes is read back, whatever follows it.
* `odd_backslashesAtEnd`: Inside, a quote is behind an odd number of backslashes.
-/

namespace SimStudio

/-- Read on inside quotes, up to the quote that closes them: the text, and what follows. -/
def unquoteOn? : List Char → Option (List Char × List Char)
  | [] => none
  | '"' :: after => some ([], after)
  | '\\' :: 'u' :: a :: b :: c :: d :: rest =>
      match (Digits.value? 16 [a, b, c, d]).bind Yaml.charOfCode?, unquoteOn? rest with
      | some x, some (cs, after) => some (x :: cs, after)
      | _, _ => none
  | '\\' :: e :: rest =>
      match fieldLetter? e, unquoteOn? rest with
      | some x, some (cs, after) => some (x :: cs, after)
      | _, _ => none
  | x :: rest =>
      match unquoteOn? rest with
      | some (cs, after) => some (x :: cs, after)
      | none => none

/-- Read a text in quotes: the text, and what follows. -/
def unquote? : List Char → Option (String × List Char)
  | '"' :: rest => (unquoteOn? rest).map fun read => (String.ofList read.1, read.2)
  | _ => none

-- ## Reading back

/-- What has been read is put before what is read behind it. -/
theorem unquoteOn?_escaped {c : Char} {code rest cs after : List Char}
    (hcode : Escaped true fieldLetter? c code) (hrest : unquoteOn? rest = some (cs, after)) :
    unquoteOn? (code ++ rest) = some (c :: cs, after) := by
  cases hcode with
  | plain hquote hbackslash => simp [unquoteOn?, hbackslash, hrest]
  | letter he hletter => simp [unquoteOn?, he, hletter, hrest]
  | code hlt =>
      -- Four digits, so the reader stops behind the last one even if digits follow.
      have hlength := Digits.length_padded 16 4 true c.toNat (by decide) (by decide) hlt
      have hvalue := Digits.value?_padded 16 4 true c.toNat (by decide) (by decide)
      generalize Digits.padded 16 4 true c.toNat = digits at hlength hvalue
      match digits, hlength with
      | [d₁, d₂, d₃, d₄], _ =>
          simp only [List.cons_append, List.nil_append]
          rw [unquoteOn?, hvalue, Option.bind_some, Yaml.charOfCode?_toNat, hrest]

theorem unquoteOn?_quoted (cs after : List Char) :
    unquoteOn? (cs.flatMap quotedChar ++ '"' :: after) = some (cs, after) := by
  induction cs with
  | nil => rfl
  | cons c cs ih =>
      rw [List.flatMap_cons, List.append_assoc]
      exact unquoteOn?_escaped (escaped_quotedChar c) ih

theorem toList_quote (s : String) :
    (quote s).toList = '"' :: (s.toList.flatMap quotedChar ++ ['"']) := by
  rw [quote, String.toList_ofList]

/-- A text in quotes is read back to the letter, and nothing of what follows it is read. -/
theorem unquote?_quote (s : String) (after : List Char) :
    unquote? ((quote s).toList ++ after) = some (s, after) := by
  rw [toList_quote, List.cons_append, List.append_assoc, List.singleton_append]
  rw [unquote?, unquoteOn?_quoted, Option.map_some, String.ofList_toList]

example : unquote? "\"\\u001b12\\\\\" \"".toList = some ("\x1b12\\", [' ', '"']) := by decide

-- ## Quotes inside

/-- The number of backslashes at the end of a text. -/
def backslashesAtEnd (cs : List Char) : Nat := (cs.reverse.takeWhile (· == '\\')).length

theorem backslashesAtEnd_concat {c : Char} (hc : c ≠ '\\') (cs : List Char) :
    backslashesAtEnd (cs ++ [c]) = 0 := by
  unfold backslashesAtEnd
  rw [List.reverse_concat, List.takeWhile_cons_of_neg (by simpa using hc), List.length_nil]

/-- An even number of backslashes in front of a text does not count. -/
theorem even_backslashesAtEnd_append {code : List Char} (h : Even (backslashesAtEnd code))
    (cs : List Char) : Even (backslashesAtEnd (code ++ cs)) ↔ Even (backslashesAtEnd cs) := by
  unfold backslashesAtEnd at h ⊢
  rw [List.reverse_append, List.takeWhile_append]
  split
  · -- Nothing but backslashes.
    rename_i hall
    rw [List.length_append, hall]
    exact Nat.even_add.trans (iff_true_right h)
  · exact Iff.rfl

/-- An escape ends with two backslashes or with none. -/
theorem even_backslashesAtEnd (c : Char) : Even (backslashesAtEnd (quotedChar c)) := by
  have hzero : ∀ (d : Char) (cs : List Char), d ≠ '\\' → Even (backslashesAtEnd (cs ++ [d])) := by
    intro d cs hd
    rw [backslashesAtEnd_concat hd]
    exact Even.zero
  unfold quotedChar
  split
  · exact hzero '"' ['\\'] (by decide)
  · exact even_two
  · exact hzero 'n' ['\\'] (by decide)
  · exact hzero 'r' ['\\'] (by decide)
  · exact hzero 't' ['\\'] (by decide)
  · rename_i hbackslash _ _ _
    split
    · -- Digits stand at the end, and no digit is a backslash.
      rename_i hspecial
      have hne : ('u' :: Digits.padded 16 4 true c.toNat) ≠ [] := List.cons_ne_nil _ _
      have hlast := List.getLast_mem hne
      rw [← List.dropLast_concat_getLast hne]
      refine hzero _ ('\\' :: _) fun heq => ?_
      rw [heq] at hlast
      rcases List.mem_cons.mp hlast with hu | hdigit
      · exact absurd hu (by decide)
      · exact absurd (isNumberMark_of_mem_padded (by omega) (by omega) hdigit) (by decide)
    · exact hzero c [] hbackslash

/-- Only the form of a quote holds one. -/
theorem eq_quote_of_mem_quotedChar {c : Char} (h : '"' ∈ quotedChar c) : c = '"' := by
  unfold quotedChar at h
  split at h
  · rfl
  · exact absurd h (by decide)
  · exact absurd h (by decide)
  · exact absurd h (by decide)
  · exact absurd h (by decide)
  · split at h
    · exfalso
      rcases List.mem_cons.mp h with hbackslash | h
      · exact absurd hbackslash (by decide)
      · rcases List.mem_cons.mp h with hu | hdigit
        · exact absurd hu (by decide)
        · exact absurd (isNumberMark_of_mem_padded (by omega) (by omega) hdigit) (by decide)
    · exact (List.mem_singleton.mp h).symm

/-- Inside a text in quotes, every quote is behind an odd number of backslashes. -/
theorem odd_backslashesAtEnd {cs before after : List Char}
    (h : cs.flatMap quotedChar = before ++ '"' :: after) : Odd (backslashesAtEnd before) := by
  induction cs generalizing before with
  | nil => exact absurd h.symm (by simp)
  | cons c cs ih =>
      rw [List.flatMap_cons] at h
      rcases List.append_eq_append_iff.mp h with ⟨later, rfl, hlater⟩ | ⟨part, hpart, hafter⟩
      · -- The quote is behind this character, so it is one of the others.
        have hodd := ih hlater
        rw [← Nat.not_even_iff_odd] at hodd ⊢
        rwa [even_backslashesAtEnd_append (even_backslashesAtEnd c)]
      · cases part with
        | nil =>
            rw [List.nil_append] at hafter
            have hodd : Odd (backslashesAtEnd []) := ih hafter.symm
            exact absurd hodd (by decide)
        | cons d part =>
            -- The quote is in the form of this character.
            rw [List.cons_append] at hafter
            rcases List.cons.inj hafter with ⟨rfl, -⟩
            have hmem : '"' ∈ quotedChar c := by
              rw [hpart]
              exact List.mem_append_right _ List.mem_cons_self
            obtain rfl := eq_quote_of_mem_quotedChar hmem
            rcases List.append_eq_cons_iff.mp hpart.symm with ⟨-, hquote⟩ | ⟨rest, rfl, hrest⟩
            · exact absurd (List.cons.inj hquote).1 (by decide)
            · cases rest with
              | nil => exact odd_one
              | cons d rest => simp at hrest

end SimStudio
