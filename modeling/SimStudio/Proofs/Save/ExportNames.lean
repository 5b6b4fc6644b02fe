import SimStudio.ExportName
import SimStudio.Proofs.Save.Downloading
import SimStudio.Proofs.Text.LowerCase

/-!
# Where Exports Land

The name of a project can be any text, and part of it becomes the name of a file. This file
stands in the directory that was chosen for it, whatever the project is called.

The name of the file is made from the lower case of the project's name, character by
character. Only two characters outside ASCII have a lower case with characters that may
stand in it; all others leave low lines, so that the few rules for ASCII agree with the lower
case of Unicode (`map_portable_lowercaseAt`). What comes out consists of small letters, digits
and low lines, and is not changed by doing it again.

A text of such characters with the ending behind it is a name. It has no slash, and it is
longer than the names that lead upward or nowhere. So is the name with a number before its
ending. Below a directory, a name adds one component to those of the directory
(`Path.isChild_join`), and leads to an entry of the place to which the directory leads
(`Store.leadsTo_of_locate_join`).

## Main definitions

* `portable`: A character as it stands in the name of a file.

## Theorems

* `exportStem_eq_lowercase`: The stem is the name in lower case, with low lines.
* `exportStem_exportStem`: A stem is its own stem.
* `numberedName_exportFilename`: Where the number of an exported file stands.
* `exists_entry_of_isDestination`: A free path is that of an entry.
* `exportFilename_lands_inside`: Exported files stand in their directory.
-/

namespace SimStudio

/-- A character as it stands in the name of an exported file. -/
def portable (c : Char) : Char := if isPortable c then c else '_'

-- ## Stems

theorem isPortable_iff (c : Char) :
    isPortable c = true ↔ ('a' ≤ c ∧ c ≤ 'z') ∨ ('0' ≤ c ∧ c ≤ '9') := by
  unfold isPortable Char.isDigit
  simp only [Bool.or_eq_true, Bool.and_eq_true, decide_eq_true_eq, ge_iff_le]
  rfl

theorem toNat_lt_of_isPortable {c : Char} (h : isPortable c = true) : c.toNat < 0x80 := by
  have hnine : '9'.toNat = 57 := rfl
  have hz : 'z'.toNat = 122 := rfl
  rcases (isPortable_iff c).mp h with ⟨-, h⟩ | ⟨-, h⟩
  · have hle : c.toNat ≤ 'z'.toNat := h
    omega
  · have hle : c.toNat ≤ '9'.toNat := h
    omega

/-- A character outside ASCII becomes a low line. -/
theorem portable_of_le {c : Char} (h : 0x80 ≤ c.toNat) : portable c = '_' := by
  have hnot : ¬ isPortable c = true := fun hc => absurd (toNat_lt_of_isPortable hc) (by omega)
  unfold portable
  rw [if_neg hnot]

theorem toLower_of_le {c : Char} (h : 0x80 ≤ c.toNat) : c.toLower = c := by
  have hnot : ¬ (c.val ≥ 'A'.val ∧ c.val ≤ 'Z'.val) := by
    rintro ⟨-, hle⟩
    have hval : c.toNat ≤ 90 := hle
    omega
  unfold Char.toLower
  rw [dif_neg hnot]

/-- What becomes of a character in lower case depends on ASCII only, but for two characters
    outside it. -/
theorem map_portable_lowercaseChar (c : Char) :
    (Text.lowercaseChar c).map portable = (lowered c).map portable := by
  unfold Text.lowercaseChar lowered
  by_cases hdotted : c = '\u0130'
  · rw [if_pos hdotted, if_pos hdotted]
  · rw [if_neg hdotted, if_neg hdotted]
    by_cases hkelvin : c = '\u212a'
    · rw [if_pos hkelvin, hkelvin]
      decide +kernel
    · rw [if_neg hkelvin]
      by_cases hascii : c.toNat < 0x80
      · rw [Text.lowerCode_of_ascii c.toNat hascii, Char.ofNat_toNat]
      · rw [not_lt] at hascii
        rw [List.map_singleton, List.map_singleton, toLower_of_le hascii, portable_of_le hascii,
          portable_of_le (Text.le_toNat_ofNat_lowerCode hascii hkelvin)]

theorem map_portable_lowercaseAt (k : Text.CaseContext) (before : List Char) (c : Char)
    (behind : List Char) :
    (Text.lowercaseAt k before c behind).map portable = (lowered c).map portable := by
  unfold Text.lowercaseAt
  split
  · -- Neither form of the small sigma is in ASCII.
    rename_i hsigma
    rw [hsigma]
    split <;> decide
  · exact map_portable_lowercaseChar c

/-- The stem is the name in lower case, with low lines. -/
theorem exportStem_eq_lowercase (k : Text.CaseContext) (name : String) :
    (exportStem name).toList = (Text.lowercase k name).map portable := by
  unfold Text.lowercase
  rw [Text.map_lowercaseFrom portable (fun c => (lowered c).map portable) k
      (map_portable_lowercaseAt k), exportStem, String.toList_ofList, ← List.map_flatMap]
  rfl

theorem portable_portable (c : Char) : portable (portable c) = portable c := by
  by_cases hc : isPortable c = true
  · have hkept : portable c = c := by
      unfold portable
      rw [if_pos hc]
    rw [hkept, hkept]
  · have hlost : portable c = '_' := by
      unfold portable
      rw [if_neg hc]
    rw [hlost]
    decide

theorem portable_of_mem_exportStem {name : String} {c : Char}
    (h : c ∈ (exportStem name).toList) : portable c = c := by
  rw [exportStem, String.toList_ofList] at h
  obtain ⟨x, _, rfl⟩ := List.mem_map.mp h
  exact portable_portable x

/-- What is left as it is, is a small letter, a digit or a low line. -/
theorem cases_of_portable {c : Char} (h : portable c = c) :
    ('a' ≤ c ∧ c ≤ 'z') ∨ ('0' ≤ c ∧ c ≤ '9') ∨ c = '_' := by
  unfold portable at h
  split at h
  · rename_i hc
    rcases (isPortable_iff c).mp hc with hletter | hdigit
    · exact .inl hletter
    · exact .inr (.inl hdigit)
  · exact .inr (.inr h.symm)

theorem toNat_lt_of_portable {c : Char} (h : portable c = c) : c.toNat < 0x80 := by
  by_contra hle
  rw [portable_of_le (not_lt.mp hle)] at h
  rw [← h] at hle
  exact hle (by decide)

/-- What is left as it is, is in lower case. -/
theorem map_portable_lowered {c : Char} (h : portable c = c) : (lowered c).map portable = [c] := by
  have hall : ∀ n < 0x80, portable (Char.ofNat n) = Char.ofNat n →
      (lowered (Char.ofNat n)).map portable = [Char.ofNat n] := by decide +kernel
  have hc := hall c.toNat (toNat_lt_of_portable h)
  rw [Char.ofNat_toNat] at hc
  exact hc h

/-- A stem is its own stem. -/
theorem exportStem_exportStem (name : String) : exportStem (exportStem name) = exportStem name := by
  have hstem : ∀ cs : List Char, (∀ c ∈ cs, portable c = c) →
      (cs.flatMap lowered).map portable = cs := by
    intro cs hcs
    rw [List.map_flatMap, List.flatMap_congr fun c hc => map_portable_lowered (hcs c hc)]
    exact List.flatMap_singleton' cs
  refine String.toList_inj.mp (Eq.trans ?_
    (hstem (exportStem name).toList fun c hc => portable_of_mem_exportStem hc))
  rw [exportStem, String.toList_ofList]
  rfl

-- ## File names

theorem slash_not_mem_exportFilename (name : String) : '/' ∉ (exportFilename name).toList := by
  rw [exportFilename, String.toList_append]
  intro hmem
  rcases List.mem_append.mp hmem with hmem | hmem
  · exact absurd (portable_of_mem_exportStem hmem) (by decide)
  · exact absurd hmem (by decide)

theorem isName_exportFilename (name : String) : isName (exportFilename name) = true := by
  refine isName_of_length ?_ (slash_not_mem_exportFilename name)
  have hlength : "_config.yaml".toList.length = 12 := rfl
  rw [exportFilename, String.toList_append, List.length_append, hlength]
  omega

/-- A text is split at its last point. -/
theorem Path.splitLastPoint?_append {stem behind : List Char} (h : '.' ∉ behind) :
    splitLastPoint? (stem ++ '.' :: behind) = some (stem, behind) := by
  have hbehind : ((stem ++ '.' :: behind).reverse.takeWhile (· != '.')).reverse = behind := by
    have hpoint : ∀ c ∈ behind.reverse, (c != '.') = true := by
      intro c hc
      rw [bne_iff_ne]
      rintro rfl
      exact h (List.mem_reverse.mp hc)
    rw [List.reverse_append, List.reverse_cons, List.append_assoc,
      List.takeWhile_append_of_pos hpoint, List.singleton_append,
      List.takeWhile_cons_of_neg (by decide), List.append_nil, List.reverse_reverse]
  unfold splitLastPoint?
  rw [hbehind]
  have hlength : (stem ++ '.' :: behind).length = stem.length + (behind.length + 1) := by
    rw [List.length_append, List.length_cons]
  simp only
  rw [if_pos (by omega), hlength,
    show stem.length + (behind.length + 1) - behind.length - 1 = stem.length by omega,
    List.take_left]

/-- The number of an exported file stands before its ending. -/
theorem numberedName_exportFilename (name : String) (n : Nat) :
    numberedName (exportFilename name) n = exportStem name ++ s!"_config ({n}).yaml" := by
  have htext : (exportFilename name).toList =
      ((exportStem name).toList ++ "_config".toList) ++ '.' :: "yaml".toList := by
    rw [exportFilename, String.toList_append, List.append_assoc]
    rfl
  have hstem : ((exportStem name).toList ++ "_config".toList).isEmpty = false := by
    rw [List.isEmpty_eq_false_iff]
    exact List.append_ne_nil_of_right_ne_nil _ (by decide)
  -- The last point is that of the ending, since the ending has no other.
  have hsplit : splitFilename (exportFilename name) = (exportStem name ++ "_config", some "yaml") := by
    unfold splitFilename
    rw [htext, Path.splitLastPoint?_append (by decide)]
    simp only
    rw [hstem, if_neg Bool.false_ne_true, String.ofList_append, String.ofList_toList]
    rfl
  have hname : numberedName (exportFilename name) n =
      exportStem name ++ "_config" ++ " (" ++ n.repr ++ ")." ++ "yaml" := by
    unfold numberedName
    rw [hsplit]
    rfl
  have hopening : "_config (" = "_config" ++ " (" := rfl
  have hclosing : ").yaml" = ")." ++ "yaml" := rfl
  have hnumber : s!"_config ({n}).yaml" = "_config (" ++ n.repr ++ ").yaml" := rfl
  rw [hname, hnumber, hopening, hclosing]
  simp only [String.append_assoc]

-- ## Where it stands

/-- The path that an exported file gets is that of an entry of the directory, under the file
    name or with a number before its ending, and wherever it leads, that directory is above. -/
theorem exists_entry_of_isDestination {s : Store} {directory path : Path} {name : String}
    (h : s.IsDestination directory (exportFilename name) path) :
    ∃ file, (file = exportFilename name ∨
        ∃ n, 1 ≤ n ∧ file = exportStem name ++ s!"_config ({n}).yaml") ∧
      directory.IsChild file path ∧
      ∀ (t : Store) (place : Location), t.locate path = .ok place →
        ∃ inside, place = file :: inside ∧ t.LeadsTo directory inside := by
  have hname := isName_exportFilename name
  cases h with
  | plain free =>
      exact ⟨_, .inl rfl, Path.isChild_join hname directory,
        fun t place => Store.leadsTo_of_locate_join hname⟩
  | numbered taken first =>
      rename_i n
      have hnumbered := isName_numberedName hname n
      exact ⟨_, .inr ⟨n, first.pos, numberedName_exportFilename name n⟩,
        Path.isChild_join hnumbered directory,
        fun t place => Store.leadsTo_of_locate_join hnumbered⟩

/-- An exported file stands in its directory, whatever its project is called. Its name is the
    lower case of the project's name, with a low line for every character but small letters
    and digits of ASCII, and the ending; and the same comes of the stem. The search for a free
    path changes nothing and ends with that of an entry of the directory, under this name or
    with a number before its ending, unless there are more files than numbers. -/
theorem exportFilename_lands_inside (name : String) (directory : Path) (w : World) :
    exportFilename name = exportStem name ++ "_config.yaml" ∧
    (∀ c ∈ (exportStem name).toList, ('a' ≤ c ∧ c ≤ 'z') ∨ ('0' ≤ c ∧ c ≤ '9') ∨ c = '_') ∧
    (∀ k : Text.CaseContext,
      (exportStem name).toList.length = (Text.lowercase k name).length ∧
      ∀ i : Nat, (exportStem name).toList[i]? = (Text.lowercase k name)[i]?.map fun c =>
        if ('a' ≤ c ∧ c ≤ 'z') ∨ ('0' ≤ c ∧ c ≤ '9') then c else '_') ∧
    exportFilename (exportStem name) = exportFilename name ∧
    ∃ result, (uniqueDestination directory (exportFilename name) :
        StateM World (Except Fault Path)).run w = (result, w) ∧
      match result with
      | .ok path => w.store.holds path = false ∧ ∃ file,
          (file = exportFilename name ∨
            ∃ n, 1 ≤ n ∧ file = exportStem name ++ s!"_config ({n}).yaml") ∧
          directory.IsChild file path ∧
          ∀ (t : Store) (place : Location), t.locate path = .ok place →
            ∃ inside, place = file :: inside ∧ t.LeadsTo directory inside
      | .error f => f = .additionOverflow ∧ numberLimit ≤ w.store.nodes.length := by
  refine ⟨rfl, fun c hc => cases_of_portable (portable_of_mem_exportStem hc), fun k => ?_, ?_, ?_⟩
  · have hportable : (fun c => if ('a' ≤ c ∧ c ≤ 'z') ∨ ('0' ≤ c ∧ c ≤ '9') then c else '_') =
        portable := by
      funext c
      unfold portable
      simp only [isPortable_iff]
    rw [exportStem_eq_lowercase k, hportable]
    exact ⟨List.length_map portable, fun i => List.getElem?_map⟩
  · rw [exportFilename, exportStem_exportStem, exportFilename]
  · obtain ⟨result, hrun, hresult⟩ :=
      World.run_uniqueDestination directory (exportFilename name) w
    refine ⟨result, hrun, ?_⟩
    cases result with
    | ok path => exact ⟨hresult.free, exists_entry_of_isDestination hresult⟩
    | error f =>
        have hname := isName_exportFilename name
        exact ⟨hresult.1, Store.le_length_of_taken hname fun n hpos hle => hresult.2.2 n hpos hle⟩

example : exportFilename "\u0130../\u212A" = "i____k_config.yaml" := by decide

end SimStudio
