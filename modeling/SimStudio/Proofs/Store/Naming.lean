import SimStudio.Proofs.Number.Characters
import SimStudio.Proofs.Store.Places
import SimStudio.Save.Download

/-!
# Names with a Number in Them

Where a name is taken, one with a number is looked for. There are three series of
such names: those of temporary files, those of staged files, and those that a file
gets instead of the one that was wanted. In each of them a number stands between two
texts that stay the same, so that different numbers make different names.

The number of a wanted name stands in brackets, before the last point if there is one.
So what ends there ends with a bracket, and never with a digit like the names of
staged files: no search for a free name ever comes upon one of those.

A name that is made up must not end a text that is known. One text is ended by one name
of a series at most, because the digits of the number can be told from what stands
before them.

## Main definitions

* `IsNumbering`: Names with a number between two texts.
* `EndsApart`: Names of which no two end the same text.

## Theorems

* `IsNumbering.injective`, `IsNumbering.isName`: Such names differ, and they are names.
* `IsNumbering.endsApart`: No two of them end the same text.
* `splitLastPoint?_cases`: What stands before and behind the last point.
* `exists_isNumbering_numberedName`: Where the number stands in a wanted name.
* `not_stagedName_suffix`: No numbered name ends as a staged file is called.
-/

namespace SimStudio

/-- Without a slash, what is longer than the names that lead upward or nowhere is a name. -/
theorem isName_of_length {name : String} (hlong : 3 ≤ name.toList.length)
    (hslash : '/' ∉ name.toList) : isName name = true := by
  have hne : ∀ s : String, s.toList.length < 3 → name ≠ s := by
    rintro s hs rfl
    omega
  simp only [isName, bne_iff_ne, Bool.and_eq_true, Bool.not_eq_true',
    List.contains_eq_mem, decide_eq_false_iff_not]
  exact ⟨⟨⟨hne "" (by decide), hne "." (by decide)⟩, hne ".." (by decide)⟩, hslash⟩

/-- Each name of a series has its number between the same two texts. -/
def IsNumbering (name : Nat → String) (before behind : List Char) : Prop :=
  ∀ n, (name n).toList = before ++ (Digits.text n ++ behind)

/-- No two names of a series end the same text. -/
def EndsApart (name : Nat → String) : Prop :=
  ∀ m n text, (name m).toList <:+ text → (name n).toList <:+ text → m = n

theorem EndsApart.injective {name : Nat → String} (h : EndsApart name) :
    Function.Injective name :=
  fun m n heq => h m n _ List.suffix_rfl (heq ▸ List.suffix_rfl)

namespace IsNumbering

variable {name : Nat → String} {before behind : List Char}

theorem injective (h : IsNumbering name before behind) : Function.Injective name := by
  intro m n heq
  have htext : before ++ (Digits.text m ++ behind) = before ++ (Digits.text n ++ behind) := by
    rw [← h m, ← h n, heq]
  exact Digits.text_injective (List.append_cancel_right (List.append_cancel_left htext))

/-- Behind something that is no digit, the digits at the end of a text are all of one
    number. -/
theorem endsApart {c : Char} (h : IsNumbering name (before ++ [c]) behind)
    (hc : c.isDigit = false) : EndsApart name := by
  rintro m n text ⟨front, rfl⟩ ⟨front', heq⟩
  simp only [h m, h n, ← List.append_assoc] at heq
  -- Read backwards, both texts begin with the digits of their numbers.
  have hreversed := congrArg List.reverse (List.append_cancel_right heq)
  simp only [List.reverse_append, List.reverse_singleton, List.append_assoc] at hreversed
  have hdigits : ∀ k, ∀ x ∈ (Digits.text k).reverse, x.isDigit = true := fun k x hx =>
    Digits.isDigit_of_mem_text (List.mem_reverse.mp hx)
  have hbefore : ∀ rest : List Char, ∀ x ∈ ([c] ++ rest).head?, x.isDigit = false := by
    intro rest x hx
    obtain rfl : c = x := Option.some.inj hx
    exact hc
  obtain ⟨hnumber, -⟩ := Text.run_unique (hdigits n) (hdigits m) (hbefore _) (hbefore _) hreversed
  exact (Digits.text_injective (List.reverse_injective hnumber)).symm

/-- With two characters around it, and no slash among them, a number makes a name. -/
theorem isName (h : IsNumbering name before behind) (hlength : 2 ≤ before.length + behind.length)
    (hbefore : '/' ∉ before) (hbehind : '/' ∉ behind) (n : Nat) : isName (name n) = true := by
  have hslash : '/' ∉ (name n).toList := by
    rw [h n, List.mem_append, List.mem_append]
    rintro (hmem | hmem | hmem)
    · exact hbefore hmem
    · exact absurd (Digits.isDigit_of_mem_text hmem) (by decide)
    · exact hbehind hmem
  have hlong : 3 ≤ (name n).toList.length := by
    have hdigit := List.length_pos_iff.mpr (Digits.text_ne_nil n)
    rw [h n, List.length_append, List.length_append]
    omega
  exact isName_of_length hlong hslash

end IsNumbering

-- ## Files that nobody is to keep

namespace World

theorem isNumbering_temporaryName : IsNumbering temporaryName ".tmp".toList [] := by
  intro n
  have htext : temporaryName n = ".tmp" ++ n.repr := rfl
  rw [htext, String.toList_append, Nat.toList_repr, List.append_nil]
  rfl

theorem isNumbering_stagedName : IsNumbering stagedName "staged-".toList ".yaml".toList := by
  intro n
  have htext : stagedName n = "staged-" ++ n.repr ++ ".yaml" := rfl
  rw [htext, String.toList_append, String.toList_append, Nat.toList_repr, List.append_assoc]
  rfl

theorem endsApart_temporaryName : EndsApart temporaryName := by
  have hnumbering : IsNumbering temporaryName (".tm".toList ++ ['p']) [] :=
    isNumbering_temporaryName
  exact hnumbering.endsApart (by decide)

theorem endsApart_stagedName : EndsApart stagedName := by
  have hnumbering : IsNumbering stagedName ("staged".toList ++ ['-']) ".yaml".toList :=
    isNumbering_stagedName
  exact hnumbering.endsApart (by decide)

theorem isName_temporaryName (n : Nat) : isName (temporaryName n) = true :=
  isNumbering_temporaryName.isName (by decide) (by decide) (by decide) n

theorem isName_stagedName (n : Nat) : isName (stagedName n) = true :=
  isNumbering_stagedName.isName (by decide) (by decide) (by decide) n

end World

-- ## Wanted names

/-- What stands before and behind the last point. -/
theorem Path.splitLastPoint?_cases (cs : List Char) : splitLastPoint? cs = none ∨
    ∃ stem behind, splitLastPoint? cs = some (stem, behind) ∧ cs = stem ++ '.' :: behind ∧
      '.' ∉ behind := by
  -- Read backwards, the text splits at its first point.
  have happend : cs.reverse.takeWhile (· != '.') ++ cs.reverse.dropWhile (· != '.') =
      cs.reverse := List.takeWhile_append_dropWhile
  have hnot : '.' ∉ cs.reverse.takeWhile (· != '.') := fun hmem => by
    simpa using List.all_eq_true.mp List.all_takeWhile '.' hmem
  unfold splitLastPoint?
  generalize cs.reverse.takeWhile (· != '.') = behind at happend hnot ⊢
  cases hdrop : cs.reverse.dropWhile (· != '.') with
  | nil =>
      left
      rw [hdrop, List.append_nil] at happend
      rw [happend, List.reverse_reverse]
      exact if_neg (Nat.lt_irrefl _)
  | cons c rest =>
      right
      obtain rfl : c = '.' := by
        have hhead := List.head?_dropWhile_not (· != '.') cs.reverse
        rw [hdrop] at hhead
        simpa using hhead
      have htext : cs = rest.reverse ++ '.' :: behind.reverse := by
        rw [hdrop] at happend
        rw [← List.reverse_reverse cs, ← happend]
        simp
      refine ⟨rest.reverse, behind.reverse, ?_, htext, fun h => hnot (List.mem_reverse.mp h)⟩
      have hlength := congrArg List.length htext
      rw [List.length_append, List.length_cons] at hlength
      simp only
      rw [if_pos (by omega), show cs.length - behind.reverse.length - 1 = rest.reverse.length by
        omega, htext, List.take_left]

/-- A number stands behind the stem of a file name, in brackets. -/
theorem exists_isNumbering_numberedName (filename : String) : ∃ stem behind,
    filename.toList = stem ++ behind ∧
    (behind = [] ∨ ∃ extension, behind = '.' :: extension ∧ '.' ∉ extension) ∧
    IsNumbering (numberedName filename) (stem ++ " (".toList) (')' :: behind) := by
  -- Without an extension the number stands behind the whole name, also if that begins with its
  -- only point.
  have hwhole : (∀ n, numberedName filename n = filename ++ " (" ++ n.repr ++ ")") →
      ∃ stem behind, filename.toList = stem ++ behind ∧
        (behind = [] ∨ ∃ extension, behind = '.' :: extension ∧ '.' ∉ extension) ∧
        IsNumbering (numberedName filename) (stem ++ " (".toList) (')' :: behind) := by
    refine fun h => ⟨filename.toList, [], (List.append_nil _).symm, .inl rfl, fun n => ?_⟩
    rw [h n, String.toList_append, String.toList_append, String.toList_append, Nat.toList_repr,
      List.append_assoc]
    rfl
  rcases Path.splitLastPoint?_cases filename.toList with
    hnone | ⟨stem, extension, hsome, htext, hext⟩
  · refine hwhole fun n => ?_
    simp only [numberedName, splitFilename, hnone]
    rfl
  · by_cases hstem : stem = []
    · refine hwhole fun n => ?_
      simp only [numberedName, splitFilename, hsome, hstem, List.isEmpty_nil, if_true]
      rfl
    · refine ⟨stem, '.' :: extension, htext, .inr ⟨extension, rfl, hext⟩, fun n => ?_⟩
      have hname : numberedName filename n = String.ofList stem ++ " (" ++ n.repr ++ ")." ++
          String.ofList extension := by
        simp only [numberedName, splitFilename, hsome, List.isEmpty_iff, hstem, if_false]
        rfl
      rw [hname, String.toList_append, String.toList_append, String.toList_append,
        String.toList_append, Nat.toList_repr]
      simp only [String.toList_ofList, List.append_assoc]
      rfl

example : numberedName "a.tar.gz" 2 = "a.tar (2).gz" := by decide

example : numberedName ".profile" 10 = ".profile (10)" := by decide

theorem numberedName_injective (filename : String) :
    Function.Injective (numberedName filename) := by
  obtain ⟨stem, behind, -, -, hnumbering⟩ := exists_isNumbering_numberedName filename
  exact hnumbering.injective

/-- What a name becomes with a number is a name. -/
theorem isName_numberedName {filename : String} (h : isName filename = true) (n : Nat) :
    isName (numberedName filename n) = true := by
  obtain ⟨stem, behind, htext, -, hnumbering⟩ := exists_isNumbering_numberedName filename
  have hslash : '/' ∉ stem ++ behind := by
    rw [← htext]
    exact not_mem_of_isName h
  rw [List.mem_append, not_or] at hslash
  refine hnumbering.isName ?_ ?_ ?_ n
  · rw [List.length_append, List.length_cons]
    change 2 ≤ stem.length + 2 + (behind.length + 1)
    omega
  · rw [List.mem_append, not_or]
    exact ⟨hslash.1, by decide⟩
  · rw [List.mem_cons, not_or]
    exact ⟨by decide, hslash.2⟩

/-- No numbered name ends as a staged file is called: before its last point there is
    a bracket. -/
theorem not_stagedName_suffix (filename : String) (k n : Nat) :
    ¬(World.stagedName k).toList <:+ (numberedName filename n).toList := by
  obtain ⟨stem, behind, -, hbehind, hnumbering⟩ := exists_isNumbering_numberedName filename
  rintro ⟨front, hfront⟩
  rw [hnumbering n, World.isNumbering_stagedName k] at hfront
  rcases hbehind with rfl | ⟨extension, rfl, hextension⟩
  · have hlast := congrArg List.getLast? hfront
    rw [← List.append_assoc, ← List.append_assoc, List.getLast?_append_of_ne_nil _ (by decide),
      ← List.append_assoc, List.getLast?_concat] at hlast
    exact absurd hlast (by decide)
  · -- Both texts are split at their last points.
    have hsplit : Text.split '.' ((front ++ "staged-".toList ++ Digits.text k) ++
        '.' :: "yaml".toList) =
        Text.split '.' ((stem ++ " (".toList ++ Digits.text n ++ [')']) ++ '.' :: extension) := by
      simpa using congrArg (Text.split '.') hfront
    rw [Text.split_append, Text.split_append, Text.split_eq_singleton hextension,
      Text.split_eq_singleton (show '.' ∉ "yaml".toList by decide)] at hsplit
    have hstem := Text.split_injective (List.append_inj' hsplit rfl).1
    have hlast := congrArg List.getLast? hstem
    rw [List.getLast?_concat, List.getLast?_append_of_ne_nil _ (Digits.text_ne_nil k)] at hlast
    exact absurd (Digits.isDigit_of_mem_text (List.mem_of_getLast? hlast)) (by decide)

end SimStudio
