import SimStudio.Configuration.Field
import SimStudio.Proofs.Configuration.Lines

/-!
# Prose Read Back

A block determines the text that was written as prose, down to the last line
end.

The lines of a block are the runs between the line ends of the text, without
the line ends at its end, followed by an empty line for each line end at the
end but the first. The last run is not empty, so it can be seen where the text
ends and the empty lines begin. How many line ends there are is then known, but
for the difference between none and one, and this difference is what the
chomping in the header says.

## Main definitions

* `proseBody`: A text without the line ends at its end.
* `isProse`: A text that is written as a block.
* `proseHeader`, `proseLines`: The two parts of a block.

## Theorems

* `proseField_eq`: A prompt is a block or a text in quotes.
* `prose_unique`: A block determines the text.
-/

namespace SimStudio

/-- A text without the line ends at its end. -/
def proseBody (cs : List Char) : List Char := (cs.reverse.dropWhile (· == '\n')).reverse

/-- How many line ends a text ends with. -/
def proseTrailing (cs : List Char) : Nat := cs.length - (proseBody cs).length

/-- Whether a text is written as a block. -/
def isProse (text : String) : Bool :=
  !((proseBody text.toList).isEmpty || !isBlockSafe text.toList)

/-- What stands behind the key of a block. -/
def proseHeader (text : String) : String :=
  "|" ++ depthMark (Text.split '\n' (proseBody text.toList)) ++
    chomping (proseTrailing text.toList)

/-- The lines of a block. -/
def proseLines (level : Nat) (text : String) : List Line :=
  (Text.split '\n' (proseBody text.toList)).map (blockLine level) ++
    List.replicate (proseTrailing text.toList - 1) .blank

/-- A prompt is written as a block or in quotes. -/
theorem proseField_eq (level : Nat) (key text : String) :
    proseField level key text = if isProse text then
      bareField level key (proseHeader text) :: proseLines (level + 1) text
    else [quotedField level key text] := by
  have hswap : ∀ (b : Bool) (xs ys : List Line),
      (if b then xs else ys) = if !b then ys else xs := fun b xs ys => by
    cases b <;> rfl
  simp only [proseField, isProse]
  exact hswap _ _ _

theorem takeWhile_newline (cs : List Char) :
    cs.takeWhile (· == '\n') = List.replicate (cs.takeWhile (· == '\n')).length '\n' := by
  refine List.eq_replicate_iff.mpr ⟨rfl, fun c hc => ?_⟩
  have hnewline := List.all_eq_true.mp List.all_takeWhile c hc
  exact beq_iff_eq.mp hnewline

/-- A text is what comes before its last line ends, and these. -/
theorem proseBody_append (cs : List Char) :
    proseBody cs ++ List.replicate (proseTrailing cs) '\n' = cs := by
  have hsplit := List.takeWhile_append_dropWhile (p := (· == '\n')) (l := cs.reverse)
  have hlength := congrArg List.length hsplit
  rw [List.length_append, List.length_reverse] at hlength
  have htrailing : proseTrailing cs = (cs.reverse.takeWhile (· == '\n')).length := by
    rw [proseTrailing, proseBody, List.length_reverse]
    omega
  rw [htrailing, proseBody, ← List.reverse_replicate, ← takeWhile_newline, ← List.reverse_append,
    hsplit, List.reverse_reverse]

/-- The text in a block does not end with a line end. -/
theorem getLast_proseBody_ne {cs : List Char} (h : proseBody cs ≠ []) :
    (proseBody cs).getLast h ≠ '\n' := by
  have hne : cs.reverse.dropWhile (· == '\n') ≠ [] := fun hnil =>
    h (by rw [proseBody, hnil, List.reverse_nil])
  have hhead := List.head_dropWhile_not (· == '\n') hne
  rw [show (proseBody cs).getLast h = (cs.reverse.dropWhile (· == '\n')).head hne from
    List.getLast_reverse _]
  exact fun heq => absurd hhead (by rw [heq]; decide)

/-- The last line of the text in a block is not empty. -/
theorem getLast?_split_proseBody {cs : List Char} (h : proseBody cs ≠ []) :
    (Text.split '\n' (proseBody cs)).getLast? ≠ some [] := by
  rw [← List.dropLast_concat_getLast h]
  exact Text.getLast?_split_concat (getLast_proseBody_ne h) _

/-- A line of a block. -/
theorem toList_render_blockLine (level : Nat) (line : List Char) :
    (blockLine level line).render.toList = if line.isEmpty then [] else indented level line := by
  rw [blockLine]
  split
  · rfl
  · exact (Line.toList_render _).trans (by simp only [String.toList_ofList])

theorem render_blockLine_injective {level : Nat} {xs ys : List Char}
    (h : (blockLine level xs).render.toList = (blockLine level ys).render.toList) : xs = ys := by
  have hne : ∀ c cs, indented level (c :: cs) ≠ [] := fun c cs hnil =>
    List.cons_ne_nil c cs (List.append_eq_nil_iff.mp hnil).2
  rw [toList_render_blockLine, toList_render_blockLine] at h
  cases xs with
  | nil =>
      cases ys with
      | nil => rfl
      | cons y ys => exact absurd h.symm (hne y ys)
  | cons x xs =>
      cases ys with
      | nil => exact absurd h (hne x xs)
      | cons y ys => exact List.append_cancel_left h

/-- The lines of a block, as they are rendered. -/
theorem render_proseLines (level : Nat) (text : String) :
    (proseLines level text).map (fun l => l.render.toList) =
      (Text.split '\n' (proseBody text.toList)).map (fun line => (blockLine level line).render.toList)
        ++ List.replicate (proseTrailing text.toList - 1) [] := by
  rw [proseLines, List.map_append, List.map_map, List.map_replicate]
  rfl

/-- A block determines the text. -/
theorem prose_unique {level : Nat} {s t : String} (hs : proseBody s.toList ≠ [])
    (ht : proseBody t.toList ≠ []) (hheader : proseHeader s = proseHeader t)
    (hlines : (proseLines level s).map (fun l => l.render.toList) =
      (proseLines level t).map fun l => l.render.toList) : s = t := by
  rw [render_proseLines, render_proseLines] at hlines
  -- Seen from the end, the empty lines come first, and then one that is not.
  have hreverse := congrArg List.reverse hlines
  rw [List.reverse_append, List.reverse_append, List.reverse_replicate, List.reverse_replicate]
    at hreverse
  have hblank : ∀ k, ∀ l ∈ List.replicate k ([] : List Char), l.isEmpty = true := fun k l hl => by
    rw [List.eq_of_mem_replicate hl]
    rfl
  have hlast : ∀ u : String, proseBody u.toList ≠ [] → ∀ l ∈ ((Text.split '\n'
      (proseBody u.toList)).map fun line => (blockLine level line).render.toList).reverse.head?,
      l.isEmpty = false := by
    intro u hu l hl
    rw [List.head?_reverse, List.getLast?_map, Option.mem_def, Option.map_eq_some_iff] at hl
    obtain ⟨line, hline, rfl⟩ := hl
    rw [toList_render_blockLine]
    cases line with
    | nil => exact absurd hline (getLast?_split_proseBody hu)
    | cons c cs => cases level <;> rfl
  obtain ⟨hblanks, hruns⟩ := Text.run_unique (hblank _) (hblank _) (hlast s hs) (hlast t ht)
    hreverse
  have hbody : proseBody s.toList = proseBody t.toList :=
    Text.split_injective ((List.map_inj_right fun _ _ => render_blockLine_injective).mp
      (List.reverse_inj.mp hruns))
  have hlength := congrArg List.length hblanks
  rw [List.length_replicate, List.length_replicate] at hlength
  have hchomping : chomping (proseTrailing s.toList) = chomping (proseTrailing t.toList) := by
    rw [proseHeader, proseHeader, hbody] at hheader
    exact (String.append_right_inj _).mp hheader
  -- The lines count the line ends but for one, and the chomping tells none from one.
  have htrailing : proseTrailing s.toList = proseTrailing t.toList := by
    have hnone : ∀ m n : Nat, m - 1 = n - 1 → chomping m = chomping n → m = n := by
      intro m n hmn hchomp
      by_cases hm : 2 ≤ m
      · omega
      · have hn : n ≤ 1 := by omega
        have hsmall : ∀ m < 2, ∀ n < 2, chomping m = chomping n → m = n := by decide
        exact hsmall m (by omega) n (by omega) hchomp
    exact hnone _ _ hlength hchomping
  have htext := proseBody_append s.toList
  rw [hbody, htrailing, proseBody_append] at htext
  exact String.toList_inj.mp htext.symm

end SimStudio
