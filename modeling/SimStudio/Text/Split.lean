/-!
# Runs between Separators

A text that a separator divides: a path at its slashes, a list of values at its
commas, prose at its line ends. Each separator ends one run and begins another,
so that there is always one run more than there are separators, and runs may be
empty. Nothing is lost, since the runs with the separator between them are the
text again.

## Main definitions

* `Text.split`: The runs of a text.
* `Text.join`: Runs with a separator between them.

## Theorems

* `split_ne_nil`: There is always a run.
* `join_split`: Joining is the inverse of splitting.
-/

namespace SimStudio

namespace Text

/-- The runs of characters between separators. -/
def split (separator : Char) : List Char → List (List Char)
  | [] => [[]]
  | c :: cs =>
      if c = separator then [] :: split separator cs
      else
        match split separator cs with
        | [] => [[c]]
        | run :: rest => (c :: run) :: rest

/-- Runs with a separator between them. -/
def join (separator : Char) (runs : List (List Char)) : List Char := [separator].intercalate runs

theorem split_ne_nil (separator : Char) (cs : List Char) : split separator cs ≠ [] := by
  cases cs with
  | nil => simp [split]
  | cons c cs =>
      rw [split]
      split
      · simp
      · split <;> simp

theorem join_split (separator : Char) (cs : List Char) :
    join separator (split separator cs) = cs := by
  induction cs with
  | nil => simp [split, join, List.intercalate]
  | cons c cs ih =>
      rw [split]
      cases hs : split separator cs with
      | nil => exact absurd hs (split_ne_nil separator cs)
      | cons run rest =>
          rw [hs] at ih
          by_cases h : c = separator
          · rw [if_pos h, ← ih, ← h]
            simp [join, List.intercalate, List.intersperse]
          · rw [if_neg h, ← ih]
            cases rest <;> simp [join, List.intercalate, List.intersperse]

end Text

end SimStudio
