import Mathlib.Data.List.ReduceOption
import SimStudio.Proofs.Text.Session

/-!
# Writing with a Control

Whoever writes with a control expects a plain text and a place in it: what is
written comes into the place of the selection, one piece behind the other. The
control works in rounds instead. In each a literal is put in, the owner renders
the text that it has been handed, and then the caret is placed.

After any number of rounds the two are the same (`refines_plain_editing`). What
carries this is that the caret that one round leaves behind is the selection from
which the next one starts, so that two pieces come to stand where one piece that
joins them would (`spliced_spliced`). Insertions without a control may come in
between everywhere, since they do nothing.

## Main definitions

* `EditSession.round`: The events of a round.
* `EditSession.touching`: The events that reach the control.
* `TextControl.written`: A control in which literals have been written.
* `EditSession.caretsFrom`: The places behind literals that are written one after
  the other.

## Theorems

* `spliced_spliced`: What is spliced in at the caret follows what was spliced in
  before.
* `EditSession.run_round`, `EditSession.exists_run_rounds`: One round, and many.
* `EditSession.exists_run_begun`: A round that has been begun.
* `EditSession.exists_run_of_touching`: Insertions without a control do nothing.
* `EditSession.refines_plain_editing`: Rounds write a text.
-/

namespace SimStudio

/-- What is spliced in at the caret follows what was spliced in before. -/
theorem spliced_spliced {buffer : String} {first : Nat} (last : Nat) (literal later : String)
    (hfirst : first ≤ buffer.length) :
    spliced (spliced buffer first last literal) (first + literal.length) (first + literal.length)
      later = spliced buffer first last (literal ++ later) := by
  have hhead : (buffer.toList.take first ++ literal.toList).length = first + literal.length := by
    rw [List.length_append, List.length_take, String.length_toList, String.length_toList]
    omega
  -- The caret parts the first splice into what is written so far and what stood behind.
  unfold spliced
  rw [String.toList_ofList, ← hhead, List.take_left, List.drop_left, String.toList_append,
    List.append_assoc (buffer.toList.take first)]

namespace TextControl

/-- A control in which literals have been written one after the other, and which
    has been given the focus for that. -/
def written (c : TextControl) : List String → TextControl
  | [] => c
  | literal :: literals =>
      let text := String.join (literal :: literals)
      ⟨spliced c.value c.selection.1 c.selection.2 text,
        (c.selection.1 + text.length, c.selection.1 + text.length), true⟩

/-- Literals may be written one at a time. -/
theorem written_cons {c : TextControl} (h : c.IsWithin) (literal : String)
    (literals : List String) : (c.written [literal]).written literals =
      c.written (literal :: literals) := by
  cases literals with
  | nil => rfl
  | cons next literals =>
      have hfirst : c.selection.1 ≤ c.value.length := Nat.le_trans h.1 h.2
      unfold written
      simp only [String.join_cons, String.join_nil, String.append_empty]
      rw [spliced_spliced _ _ _ hfirst, String.length_append literal, ← Nat.add_assoc]

theorem isWithin_written {c : TextControl} (h : c.IsWithin) (literals : List String) :
    (c.written literals).IsWithin := by
  cases literals with
  | nil => exact h
  | cons literal literals =>
      refine ⟨Nat.le_refl _, ?_⟩
      unfold written
      dsimp only
      rw [length_spliced _ h.1 h.2]
      omega

theorem written_append {c : TextControl} (h : c.IsWithin) (before after : List String) :
    c.written (before ++ after) = (c.written before).written after := by
  induction before generalizing c with
  | nil => rfl
  | cons literal before ih =>
      rw [List.cons_append, ← written_cons h literal before, ← ih (isWithin_written h [literal]),
        written_cons h]

end TextControl

namespace EditSession

/-- A literal is put in, the text is shown, and the caret is placed. -/
def round (literal : String) : List EditEvent :=
  [.insert literal, .renderCommitted, .afterCommit]

/-- Whether an event reaches the control. -/
def touches : EditEvent → Bool
  | .insertNowhere _ => false
  | _ => true

/-- The events that reach the control. -/
def touching (events : List EditEvent) : List EditEvent := events.filter touches

/-- The places behind literals that are written one after the other. -/
def caretsFrom (first : Nat) : List String → List Nat
  | [] => []
  | literal :: literals => (first + literal.length) :: caretsFrom (first + literal.length) literals

/-- A session with a control that has a selection. -/
def openedAt (value : String) (first last : Nat) : EditSession :=
  { control := (TextControl.new value).select first last }

-- ## Rounds

/-- What is put in is handed to the owner, the caret behind it waits, and the control
    is left alone. -/
theorem run_insert {s : EditSession} (h : s.control.IsWithin) (literal : String) :
    s.run [.insert literal] = .ok ([some (s.control.selection.1 + literal.length)],
      { s with
        scheduler := ⟨some (s.control.selection.1 + literal.length)⟩
        committed := some (s.control.written [literal]).value
        isShown := false }) := by
  refine run_cons_eq_ok_iff.mpr ⟨_, _, [], step_insert h literal, ?_, rfl⟩
  simp only [run, TextControl.written, String.join_cons, String.join_nil, String.append_empty]

theorem run_append {s t u : EditSession} {before after : List EditEvent}
    {carets later : List (Option Nat)} (hbefore : s.run before = .ok (carets, t))
    (hafter : t.run after = .ok (later, u)) :
    s.run (before ++ after) = .ok (carets ++ later, u) := by
  induction before generalizing s carets with
  | nil =>
      obtain ⟨rfl, rfl⟩ := Prod.mk.inj (Except.ok.inj hbefore)
      exact hafter
  | cons e before ih =>
      obtain ⟨caret, v, between, hstep, hrest, rfl⟩ := run_cons_eq_ok_iff.mp hbefore
      exact run_cons_eq_ok_iff.mpr ⟨caret, v, between ++ later, hstep, ih hrest, rfl⟩

/-- A round writes its literal. -/
theorem run_round {s : EditSession} (h : s.control.IsWithin) (literal : String) :
    s.run (round literal) =
      .ok ([some (s.control.selection.1 + literal.length), none,
          some (s.control.selection.1 + literal.length)],
        { control := s.control.written [literal]
          committed := some (s.control.written [literal]).value
          isShown := true }) := by
  refine run_append (run_insert h literal) ?_
  simp [run, step, render, CaretScheduler.afterCommit, TextControl.render, TextControl.select,
    TextControl.focus, TextControl.written]

/-- Rounds write their literals, and each reports its caret twice. -/
theorem exists_run_rounds {s : EditSession} (h : s.control.IsWithin)
    (hpending : s.scheduler.pending = none) (literals : List String) :
    ∃ carets t, s.run (literals.flatMap round) = .ok (carets, t) ∧
      t.control = s.control.written literals ∧ t.scheduler.pending = none ∧
      carets.reduceOption =
        (caretsFrom s.control.selection.1 literals).flatMap fun caret => [caret, caret] := by
  -- Each round ends where the next one can begin: nothing waits, and the caret is in the text.
  induction literals generalizing s with
  | nil => exact ⟨[], s, rfl, rfl, hpending, rfl⟩
  | cons literal literals ih =>
      have hround := run_round h literal
      obtain ⟨carets, t, hrun, hcontrol, hnone, hcarets⟩ :=
        ih (s := ⟨s.control.written [literal], {}, some (s.control.written [literal]).value, true⟩)
          (TextControl.isWithin_written h [literal]) rfl
      refine ⟨_, t, run_append hround hrun, ?_, hnone, ?_⟩
      · rw [hcontrol, TextControl.written_cons h]
      · rw [List.reduceOption_append, hcarets]
        simp [caretsFrom, TextControl.written, String.join_cons, String.join_nil,
          List.reduceOption]

-- ## Insertions without a control

/-- Insertions without a control do nothing, wherever they stand. -/
theorem exists_run_of_touching {s t : EditSession} {events : List EditEvent}
    {carets : List (Option Nat)} (h : s.run (touching events) = .ok (carets, t)) :
    ∃ carets', s.run events = .ok (carets', t) ∧ carets'.reduceOption = carets.reduceOption := by
  induction events generalizing s carets with
  | nil => exact ⟨carets, h, rfl⟩
  | cons e events ih =>
      by_cases htouches : touches e = true
      · rw [touching, List.filter_cons_of_pos htouches] at h
        obtain ⟨caret, u, later, hstep, hlater, rfl⟩ := run_cons_eq_ok_iff.mp h
        obtain ⟨carets', hrun, hcarets⟩ := ih hlater
        refine ⟨caret :: carets', run_cons_eq_ok_iff.mpr ⟨caret, u, carets', hstep, hrun, rfl⟩, ?_⟩
        cases caret with
        | none => exact hcarets
        | some caret => exact congrArg (caret :: ·) hcarets
      · rw [touching, List.filter_cons_of_neg htouches] at h
        obtain ⟨carets', hrun, hcarets⟩ := ih h
        cases e with
        | insertNowhere literal =>
            exact ⟨none :: carets', run_cons_eq_ok_iff.mpr
              ⟨none, s, carets', step_insertNowhere s literal, hrun, rfl⟩, hcarets⟩
        | insert literal => exact absurd rfl htouches
        | select first last => exact absurd rfl htouches
        | render value => exact absurd rfl htouches
        | renderCommitted => exact absurd rfl htouches
        | afterCommit => exact absurd rfl htouches

/-- A round that has been begun leaves the control alone until the new text is shown,
    and the caret is not placed before the owner asks for it. -/
theorem exists_run_begun {s : EditSession} (h : s.control.IsWithin) (literal : String) :
    (∃ t, s.run [.insert literal] = .ok ([some (s.control.written [literal]).selection.1], t) ∧
      t.control = s.control ∧ t.committed = some (s.control.written [literal]).value ∧
      t.scheduler.pending = some (s.control.written [literal]).selection.1) ∧
    ∃ t, s.run [.insert literal, .renderCommitted] =
        .ok ([some (s.control.written [literal]).selection.1, none], t) ∧
      t.control.value = (s.control.written [literal]).value ∧
      t.control.focused = s.control.focused ∧
      t.scheduler.pending = some (s.control.written [literal]).selection.1 := by
  have hinsert := run_insert h literal
  have hcaret : (s.control.written [literal]).selection.1 =
      s.control.selection.1 + literal.length := by
    simp only [TextControl.written, String.join_cons, String.join_nil, String.append_empty]
  rw [hcaret]
  exact ⟨⟨_, hinsert, rfl, rfl, rfl⟩, _, run_append hinsert rfl, rfl, rfl, rfl⟩

/-- Rounds write their literals into the place of the selection, one behind the other,
    and no event of them is a fault. Both reports of a round tell the caret that it
    leaves behind. Until the text of a round is shown, the control is as the rounds
    before have left it. Insertions without a control may stand anywhere, and they
    change nothing. -/
theorem refines_plain_editing (value : String) {first last : Nat} (hfirst : first ≤ last)
    (hlast : last ≤ value.length) (literals : List String) :
    let start := openedAt value first last
    let carets := (caretsFrom first literals).flatMap fun caret => [caret, caret]
    (∀ events, touching events = literals.flatMap round →
      ∃ reports t, start.run events = .ok (reports, t) ∧
        t.control = start.control.written literals ∧ t.scheduler.pending = none ∧
        reports.reduceOption = carets) ∧
    (∀ events literal, touching events = literals.flatMap round ++ [.insert literal] →
      ∃ reports t, start.run events = .ok (reports, t) ∧
        t.control = start.control.written literals ∧
        t.committed = some (start.control.written (literals ++ [literal])).value ∧
        t.scheduler.pending = some (start.control.written (literals ++ [literal])).selection.1 ∧
        reports.reduceOption =
          carets ++ [(start.control.written (literals ++ [literal])).selection.1]) ∧
    (∀ events literal,
      touching events = literals.flatMap round ++ [.insert literal, .renderCommitted] →
      ∃ reports t, start.run events = .ok (reports, t) ∧
        t.control.value = (start.control.written (literals ++ [literal])).value ∧
        t.control.focused = (start.control.written literals).focused ∧
        t.scheduler.pending = some (start.control.written (literals ++ [literal])).selection.1) ∧
    ∀ (s : EditSession) literal, s.step (.insertNowhere literal) = .ok (none, s) := by
  intro start carets
  have hstart : start.control.IsWithin := ⟨hfirst, hlast⟩
  -- The rounds are run alone first. Insertions without a control come in again at the end, since
  -- a run is the same with them.
  obtain ⟨reports, s, hrun, hcontrol, hpending, hreports⟩ := exists_run_rounds hstart rfl literals
  have hs : s.control.IsWithin := hcontrol ▸ TextControl.isWithin_written hstart literals
  have hnext : ∀ literal, s.control.written [literal] =
      start.control.written (literals ++ [literal]) := fun literal => by
    rw [hcontrol, TextControl.written_append hstart]
  refine ⟨fun events hevents => ?_, fun events literal hevents => ?_,
    fun events literal hevents => ?_, step_insertNowhere⟩
  · obtain ⟨reports', hrun', hsame⟩ := exists_run_of_touching (hevents ▸ hrun)
    exact ⟨reports', s, hrun', hcontrol, hpending, hsame.trans hreports⟩
  · obtain ⟨⟨t, hbegun, hleft, hcommitted, hwaits⟩, -⟩ := exists_run_begun hs literal
    rw [hnext] at hbegun hcommitted hwaits
    obtain ⟨reports', hrun', hsame⟩ := exists_run_of_touching (hevents ▸ run_append hrun hbegun)
    refine ⟨reports', t, hrun', hleft.trans hcontrol, hcommitted, hwaits, ?_⟩
    rw [hsame, List.reduceOption_append, hreports]
    rfl
  · obtain ⟨-, t, hbegun, hshown, hfocused, hwaits⟩ := exists_run_begun hs literal
    rw [hnext] at hbegun hshown hwaits
    obtain ⟨reports', hrun', -⟩ := exists_run_of_touching (hevents ▸ run_append hrun hbegun)
    exact ⟨reports', t, hrun', hshown,
      hfocused.trans (congrArg TextControl.focused hcontrol), hwaits⟩

/-- Two rounds, with insertions without a control between their events. -/
def twoRounds : List EditEvent :=
  [.insert "x", .insertNowhere "u", .renderCommitted, .afterCommit, .insertNowhere "v",
    .insert "yz", .renderCommitted, .insertNowhere "w", .afterCommit]

theorem refines_plain_editing_twoRounds : 1 ≤ 2 ∧ 2 ≤ "abc".length ∧ ∃ reports t,
    (openedAt "abc" 1 2).run twoRounds = .ok (reports, t) ∧
      t.control = ⟨"axyzc", (4, 4), true⟩ ∧ t.scheduler.pending = none ∧
      reports.reduceOption = [2, 2, 4, 4] := by
  have hlast : 2 ≤ "abc".length := by decide
  obtain ⟨reports, t, hrun, hcontrol, hpending, hreports⟩ :=
    (refines_plain_editing "abc" (by decide : 1 ≤ 2) hlast ["x", "yz"]).1 twoRounds rfl
  exact ⟨by decide, hlast, reports, t, hrun, hcontrol, hpending, hreports⟩

end EditSession

end SimStudio
