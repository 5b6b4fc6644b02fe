import SimStudio.Proofs.Yaml.Styles
import SimStudio.Yaml.Token.Scan

/-!
# Lines of a Written Text

Where the lines of a written text begin, and what the scanner skips before
them.

Behind a value a line ends, and the text goes on in a column that is not deeper
than the collection of the value, or it ends. Whichever way a scalar was read,
the scanner then comes to the same place: this is what makes one statement do for
all styles.

## Main definitions

* `Yaml.startsLexeme`: The characters with which the scanner stops skipping.
* `Yaml.Follows`: How a text goes on behind the line of a value.

## Theorems

* `Yaml.toLexeme_spaces`, `Yaml.toLexeme_feed`, `Yaml.toLexeme_start`: What is
  skipped before a lexeme.
-/

namespace SimStudio

namespace Yaml

namespace Position

@[simp] theorem advance_zero (p : Position) : p.advance 0 = p := rfl

@[simp] theorem advance_advance (p : Position) (m n : Nat) :
    (p.advance m).advance n = p.advance (m + n) := by
  simp [advance, Nat.add_assoc]

@[simp] theorem advance_line (p : Position) (n : Nat) : (p.advance n).line = p.line := rfl

@[simp] theorem advance_column (p : Position) (n : Nat) :
    (p.advance n).column = p.column + n := rfl

@[simp] theorem advance_index (p : Position) (n : Nat) : (p.advance n).index = p.index + n := rfl

@[simp] theorem newLine_line (p : Position) (n : Nat) : (p.newLine n).line = p.line + 1 := rfl

@[simp] theorem newLine_column (p : Position) (n : Nat) : (p.newLine n).column = 0 := rfl

end Position

@[simp] theorem spaces_zero : spaces 0 = [] := rfl

theorem spaces_succ (n : Nat) : spaces (n + 1) = ' ' :: spaces n := rfl

@[simp] theorem length_spaces (n : Nat) : (spaces n).length = n := List.length_replicate

theorem eq_space_of_mem_spaces {n : Nat} {c : Char} (h : c ∈ spaces n) : c = ' ' :=
  List.eq_of_mem_replicate h

@[simp] theorem isBreak_newline : isBreak '\n' = true := by decide

/-- The characters with which a lexeme begins, wherever they stand. -/
def startsLexeme (c : Char) : Bool := !isGap c && c != '#' && c != byteOrderMark

theorem not_gap_of_startsLexeme {c : Char} (h : startsLexeme c = true) :
    isSpace c = false ∧ isBreak c = false ∧ c ≠ '#' ∧ c ≠ byteOrderMark := by
  simp only [startsLexeme, isGap, Bool.and_eq_true, Bool.not_eq_true', Bool.or_eq_false_iff,
    bne_iff_ne] at h
  exact ⟨h.1.1.1, h.1.1.2, h.1.2, h.2⟩

theorem ne_of_startsLexeme {c : Char} (h : startsLexeme c = true) : c ≠ ' ' ∧ c ≠ '\t' ∧ c ≠ '\r' := by
  refine ⟨?_, ?_, ?_⟩ <;>
    · rintro rfl
      exact absurd h (by decide)

/-- How a text goes on behind the line of a value: not at all, or with a lexeme in
    a column that is not deeper than a given one. -/
inductive Follows (column : Int) : List Char → Prop
  | nothing : Follows column []
  | line {k : Nat} {c : Char} {cs : List Char} (hk : (k : Int) ≤ column)
      (hc : startsLexeme c = true) : Follows column (spaces k ++ c :: cs)

theorem Follows.mono {a b : Int} (h : a ≤ b) {rest : List Char} (hr : Follows a rest) :
    Follows b rest := by
  cases hr with
  | nothing => exact .nothing
  | line hk hc => exact .line (Int.le_trans hk h) hc

-- ## What Is Skipped

open Scan (toLexeme)

theorem toLexeme_spaces (inFlow : Bool) (k : Nat) (cs : List Char) (pos : Position)
    (allowed : Bool) : toLexeme inFlow (spaces k ++ cs) pos false allowed =
      toLexeme inFlow cs (pos.advance k) false allowed := by
  induction k generalizing pos with
  | zero => rfl
  | succ k ih =>
      have hstep : toLexeme inFlow (' ' :: (spaces k ++ cs)) pos false allowed =
          toLexeme inFlow (spaces k ++ cs) pos.advance false allowed := rfl
      rw [spaces_succ, List.cons_append, hstep, ih, Position.advance_advance, Nat.add_comm 1 k]

theorem toLexeme_feed (inFlow : Bool) (cs : List Char) (pos : Position) (allowed : Bool) :
    toLexeme inFlow ('\n' :: cs) pos false allowed =
      toLexeme inFlow cs pos.newLine false (allowed || !inFlow) :=
  rfl

theorem toLexeme_start {c : Char} (hc : startsLexeme c = true) (inFlow : Bool) (cs : List Char)
    (pos : Position) (allowed : Bool) :
    toLexeme inFlow (c :: cs) pos false allowed = (⟨c :: cs, pos⟩, allowed) := by
  obtain ⟨hspace, htab, hreturn⟩ := ne_of_startsLexeme hc
  obtain ⟨-, hbreak, hcomment, hmark⟩ := not_gap_of_startsLexeme hc
  rw [toLexeme]
  · simp [hbreak, hspace, htab, hcomment, hmark]
  · exact fun _ h => absurd h hreturn

end Yaml

end SimStudio
