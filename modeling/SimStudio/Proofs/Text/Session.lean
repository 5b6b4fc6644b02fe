import SimStudio.Proofs.Text.Splicing

/-!
# Editing Sessions

What happens between a control and the owner of its text, event after event and
in any order: something is put in at the selection, a selection is made, a text
is rendered, the caret that waits is placed.

A control keeps its selection within its text by itself, but for one event. When
the caret that waits is placed, nobody asks how long the text is that is on the
screen. The caret belongs to the text that was committed (`caretKnown_of_run`), so
all is well while that text is shown. A shorter one may have been rendered since,
and then the caret is placed behind its end. That is the only way in which a
session can go wrong (`within_iff_along_fits`), and the next insertion is a fault
(`overtaken_not_within`).

## Main definitions

* `EditSession`: A control, the caret that waits, and what the owner was handed.
* `EditSession.step`, `EditSession.run`: What an event does, and what many do.
* `EditSession.Along`: Something that holds at every event of a run.
* `EditSession.Allows`: What the owner of the text promises.
* `EditSession.Fits`: The caret that is placed is within the text.
* `EditSession.CaretKnown`: The caret that waits is within what was committed.

## Theorems

* `EditSession.step_of_within`: What one event does to the selection.
* `EditSession.caretKnown_of_run`: The caret is within what was committed.
* `EditSession.within_iff_along`: One event after the other, by induction.
* `EditSession.within_iff_along_fits`: When the selection stays within the text.
-/

namespace SimStudio

/-- The selection of a control is within its text. -/
def TextControl.IsWithin (c : TextControl) : Prop :=
  c.selection.1 ≤ c.selection.2 ∧ c.selection.2 ≤ c.value.length

/-- A control with the caret that waits for it, and what the owner of its text
    was handed. -/
structure EditSession where
  control : TextControl
  scheduler : CaretScheduler := {}
  /-- The text that the owner was handed last. -/
  committed : Option String := none
  /-- Whether that text has been rendered since. -/
  isShown : Bool := true

/-- What can happen to a control. -/
inductive EditEvent
  /-- A literal is put in at the selection. -/
  | insert (literal : String)
  /-- A literal is to be put in, but there is no control. -/
  | insertNowhere (literal : String)
  /-- A selection is made. -/
  | select (first last : Nat)
  /-- The owner renders any text. -/
  | render (value : String)
  /-- The owner renders the text that was handed to it last. -/
  | renderCommitted
  /-- The owner says that the caret may be placed. -/
  | afterCommit

namespace EditSession

/-- A session with a control whose caret is at the end of its text. -/
def opened (value : String) : EditSession := { control := .new value }

/-- Put a literal into a control, if there is one, and hand the text to the
    owner. -/
def insertInto (s : EditSession) (target : Option TextControl) (literal : String) :
    Except Fault (Option Nat × EditSession) :=
  match TextControl.insert target literal s.scheduler with
  | .error f => .error f
  | .ok (none, scheduler) => .ok (none, { s with scheduler })
  | .ok (some made, scheduler) =>
      .ok (some made.caret, { s with scheduler, committed := some made.text, isShown := false })

/-- Render a text. -/
def render (s : EditSession) (value : String) : EditSession :=
  { s with
    control := s.control.render value
    isShown := s.isShown || s.committed == some value }

/-- What an event does, and the caret that it reports. -/
def step (s : EditSession) : EditEvent → Except Fault (Option Nat × EditSession)
  | .insert literal => s.insertInto (some s.control) literal
  | .insertNowhere literal => s.insertInto none literal
  | .select first last => .ok (none, { s with control := s.control.select first last })
  | .render value => .ok (none, s.render value)
  | .renderCommitted => .ok (none, (s.committed.map s.render).getD s)
  | .afterCommit =>
      match s.scheduler.afterCommit s.control with
      | (caret, scheduler, control) => .ok (caret, { s with scheduler, control })

/-- What events do one after the other, and the carets that they report. -/
def run (s : EditSession) : List EditEvent → Except Fault (List (Option Nat) × EditSession)
  | [] => .ok ([], s)
  | e :: events =>
      match s.step e with
      | .error f => .error f
      | .ok (caret, t) =>
          match t.run events with
          | .error f => .error f
          | .ok (carets, u) => .ok (caret :: carets, u)

/-- Something holds at every event of a run. -/
def Along (holds : EditSession → EditEvent → Prop) (s : EditSession) : List EditEvent → Prop
  | [] => True
  | e :: events => holds s e ∧ ∀ caret t, s.step e = .ok (caret, t) → t.Along holds events

/-- What the owner promises: selections are within the text, and the caret is placed
    only after the text that it belongs to has been rendered, be it that another one
    has been rendered since. -/
def Allows (s : EditSession) : EditEvent → Prop
  | .select first last => first ≤ last ∧ last ≤ s.control.value.length
  | .afterCommit => s.isShown = true
  | _ => True

/-- The caret that waits is within the text that is on the screen. -/
def CaretFits (s : EditSession) : Prop :=
  ∀ caret, s.scheduler.pending = some caret → caret ≤ s.control.value.length

/-- A caret that is placed is within the text. -/
def Fits (s : EditSession) : EditEvent → Prop
  | .afterCommit => s.CaretFits
  | _ => True

-- ## One event

/-- A literal that is put in at a selection within the text. -/
theorem step_insert {s : EditSession} (h : s.control.IsWithin) (literal : String) :
    s.step (.insert literal) = .ok (some (s.control.selection.1 + literal.length),
      { s with
        scheduler := ⟨some (s.control.selection.1 + literal.length)⟩
        committed := some (spliced s.control.value s.control.selection.1 s.control.selection.2
          literal)
        isShown := false }) := by
  have hinserted := TextControl.insert_eq_ok literal s.scheduler h.1 h.2
  simp only [step, insertInto, hinserted]

/-- A literal is put in only where the selection is within the text. -/
theorem isWithin_of_step_insert {s t : EditSession} {literal : String} {caret : Option Nat}
    (h : s.step (.insert literal) = .ok (caret, t)) : s.control.IsWithin := by
  cases hsplice : splice s.control.value s.control.selection.1 s.control.selection.2 literal with
  | ok made => exact within_of_splice hsplice
  | error f =>
      simp only [step, insertInto, TextControl.insert, hsplice, bind, Except.bind] at h
      cases h

theorem step_insertNowhere (s : EditSession) (literal : String) :
    s.step (.insertNowhere literal) = .ok (none, s) := rfl

/-- Rendering cuts the selection off where the text ends. -/
theorem isWithin_render {s : EditSession} (h : s.control.IsWithin) (value : String) :
    (s.render value).control.IsWithin := by
  unfold TextControl.IsWithin render TextControl.render at *
  dsimp only
  omega

/-- Any event that is allowed leads on, and the selection stays within the text
    exactly if no caret is placed that does not fit. -/
theorem step_of_within {s : EditSession} {e : EditEvent} (h : s.control.IsWithin)
    (hallowed : s.Allows e) :
    ∃ caret t, s.step e = .ok (caret, t) ∧ (t.control.IsWithin ↔ s.Fits e) := by
  cases e with
  | insert literal => exact ⟨_, _, step_insert h literal, iff_of_true h trivial⟩
  | insertNowhere literal => exact ⟨_, _, step_insertNowhere s literal, iff_of_true h trivial⟩
  | select first last => exact ⟨_, _, rfl, iff_of_true hallowed trivial⟩
  | render value => exact ⟨_, _, rfl, iff_of_true (isWithin_render h value) trivial⟩
  | renderCommitted =>
      refine ⟨_, _, rfl, iff_of_true ?_ trivial⟩
      cases s.committed with
      | none => exact h
      | some value => exact isWithin_render h value
  | afterCommit =>
      cases hpending : s.scheduler.pending with
      | none =>
          -- No caret waits, so nothing happens.
          refine ⟨none, s, by simp only [step, CaretScheduler.afterCommit, hpending],
            iff_of_true h fun caret hcaret => ?_⟩
          rw [hpending] at hcaret
          cases hcaret
      | some caret =>
          refine ⟨some caret, _, by simp only [step, CaretScheduler.afterCommit, hpending]; rfl, ?_⟩
          constructor
          · intro hwithin other hother
            rw [hpending] at hother
            obtain rfl := Option.some.inj hother
            exact hwithin.2
          · intro hfits
            exact ⟨Nat.le_refl caret, hfits caret hpending⟩

/-- The caret that waits is within the text that was committed. -/
def CaretKnown (s : EditSession) : Prop :=
  ∀ caret, s.scheduler.pending = some caret →
    ∃ value, s.committed = some value ∧ caret ≤ value.length

/-- No event lets a caret wait that is not within the text that is committed with
    it. -/
theorem caretKnown_of_step {s t : EditSession} {e : EditEvent} {caret : Option Nat}
    (h : s.CaretKnown) (hstep : s.step e = .ok (caret, t)) : t.CaretKnown := by
  cases e with
  | insert literal =>
      have hwithin := isWithin_of_step_insert hstep
      rw [step_insert hwithin] at hstep
      obtain ⟨-, rfl⟩ := Prod.mk.inj (Except.ok.inj hstep)
      -- The caret waits behind the literal, within the text that is committed with it.
      intro waiting hwaiting
      obtain rfl := Option.some.inj hwaiting
      refine ⟨_, rfl, ?_⟩
      rw [length_spliced literal hwithin.1 hwithin.2]
      omega
  | insertNowhere literal =>
      obtain ⟨-, rfl⟩ := Prod.mk.inj (Except.ok.inj hstep)
      exact h
  | select first last =>
      obtain ⟨-, rfl⟩ := Prod.mk.inj (Except.ok.inj hstep)
      exact h
  | render value =>
      obtain ⟨-, rfl⟩ := Prod.mk.inj (Except.ok.inj hstep)
      exact h
  | renderCommitted =>
      obtain ⟨-, rfl⟩ := Prod.mk.inj (Except.ok.inj hstep)
      intro waiting hwaiting
      cases hcommitted : s.committed with
      | none =>
          rw [hcommitted] at hwaiting
          exact h waiting hwaiting
      | some value =>
          rw [hcommitted] at hwaiting
          exact h waiting hwaiting
  | afterCommit =>
      cases hpending : s.scheduler.pending with
      | none =>
          simp only [step, CaretScheduler.afterCommit, hpending, Except.ok.injEq,
            Prod.mk.injEq] at hstep
          obtain ⟨-, rfl⟩ := hstep
          exact h
      | some placed =>
          simp only [step, CaretScheduler.afterCommit, hpending, Except.ok.injEq,
            Prod.mk.injEq] at hstep
          obtain ⟨-, rfl⟩ := hstep
          intro waiting hwaiting
          cases hwaiting

-- ## Many events

/-- A run that goes through goes through its first event and then through the rest. -/
theorem run_cons_eq_ok_iff {s u : EditSession} {e : EditEvent} {events : List EditEvent}
    {carets : List (Option Nat)} : s.run (e :: events) = .ok (carets, u) ↔
      ∃ caret t later, s.step e = .ok (caret, t) ∧ t.run events = .ok (later, u) ∧
        carets = caret :: later := by
  rw [run]
  cases hstep : s.step e with
  | error f => simp
  | ok made =>
      obtain ⟨caret, t⟩ := made
      cases hlater : t.run events with
      | error f => simp [hlater]
      | ok later =>
          simp only [hlater, Except.ok.injEq, Prod.mk.injEq]
          constructor
          · rintro ⟨rfl, rfl⟩
            exact ⟨caret, t, later.1, ⟨rfl, rfl⟩, hlater, rfl⟩
          · rintro ⟨caret', t', later', ⟨rfl, rfl⟩, hlater', rfl⟩
            obtain rfl := Except.ok.inj (hlater.symm.trans hlater')
            exact ⟨rfl, rfl⟩

theorem Along.cons {holds : EditSession → EditEvent → Prop} {s t : EditSession} {e : EditEvent}
    {caret : Option Nat} {events : List EditEvent} (hhere : holds s e)
    (hstep : s.step e = .ok (caret, t)) (hlater : t.Along holds events) :
    s.Along holds (e :: events) := by
  refine ⟨hhere, fun caret' t' hstep' => ?_⟩
  obtain ⟨-, rfl⟩ := Prod.mk.inj (Except.ok.inj (hstep.symm.trans hstep'))
  exact hlater

theorem caretKnown_of_run {s t : EditSession} {events : List EditEvent}
    {carets : List (Option Nat)} (h : s.CaretKnown) (hrun : s.run events = .ok (carets, t)) :
    t.CaretKnown := by
  induction events generalizing s carets with
  | nil =>
      obtain ⟨-, rfl⟩ := Prod.mk.inj (Except.ok.inj hrun)
      exact h
  | cons e events ih =>
      obtain ⟨caret, u, later, hstep, hlater, -⟩ := run_cons_eq_ok_iff.mp hrun
      exact ih (caretKnown_of_step h hstep) hlater

/-- Every state of a run has its selection within the text exactly if every caret
    that is placed fits. -/
theorem within_iff_along {s : EditSession} {events : List EditEvent} (h : s.control.IsWithin)
    (hallowed : s.Along Allows events) :
    (∀ before, before <+: events →
      ∃ carets t, s.run before = .ok (carets, t) ∧ t.control.IsWithin) ↔
      s.Along Fits events := by
  -- The states of a run are the first one and those of the run that is left after one event.
  induction events generalizing s with
  | nil =>
      refine iff_of_true (fun before hbefore => ?_) trivial
      rw [List.prefix_nil.mp hbefore]
      exact ⟨[], s, rfl, h⟩
  | cons e events ih =>
      obtain ⟨hhere, hlater⟩ := hallowed
      obtain ⟨caret, t, hstep, hfits⟩ := step_of_within h hhere
      constructor
      · intro hall
        -- The run of the first event alone shows that it fits.
        have hwithin : t.control.IsWithin := by
          obtain ⟨carets, u, hrun, hu⟩ := hall [e] (List.prefix_append [e] events)
          obtain ⟨caret', t', later, hstep', hrest, -⟩ := run_cons_eq_ok_iff.mp hrun
          obtain ⟨-, rfl⟩ := Prod.mk.inj (Except.ok.inj (hstep.symm.trans hstep'))
          obtain ⟨-, rfl⟩ := Prod.mk.inj (Except.ok.inj hrest)
          exact hu
        refine .cons (hfits.mp hwithin) hstep ((ih hwithin (hlater caret t hstep)).mp ?_)
        intro before hbefore
        obtain ⟨carets, u, hrun, hu⟩ :=
          hall (e :: before) (List.cons_prefix_cons.mpr ⟨rfl, hbefore⟩)
        obtain ⟨caret', t', later, hstep', hrest, -⟩ := run_cons_eq_ok_iff.mp hrun
        obtain ⟨-, rfl⟩ := Prod.mk.inj (Except.ok.inj (hstep.symm.trans hstep'))
        exact ⟨later, u, hrest, hu⟩
      · rintro ⟨hfit, hrest⟩ before hbefore
        have hwithin := hfits.mpr hfit
        cases before with
        | nil => exact ⟨[], s, rfl, h⟩
        | cons e' before =>
            obtain ⟨rfl, hprefix⟩ := List.cons_prefix_cons.mp hbefore
            obtain ⟨carets, u, hrun, hu⟩ :=
              (ih hwithin (hlater caret t hstep)).mpr (hrest caret t hstep) before hprefix
            exact ⟨caret :: carets, u,
              run_cons_eq_ok_iff.mpr ⟨caret, t, carets, hstep, hrun, rfl⟩, hu⟩

/-- In any run of a control whose owner keeps its promises, the selection stays within
    the text, and so no insertion is a fault, exactly if every caret that is placed
    fits into the text that is shown. It fits while that is the text that was
    committed last. -/
theorem within_iff_along_fits (value : String) (events : List EditEvent)
    (hallowed : (opened value).Along Allows events) :
    ((∀ before, before <+: events → ∃ carets s,
        (opened value).run before = .ok (carets, s) ∧ s.control.IsWithin) ↔
      (opened value).Along Fits events) ∧
    ∀ before carets s, (opened value).run before = .ok (carets, s) →
      s.committed = some s.control.value → s.CaretFits := by
  refine ⟨within_iff_along ⟨Nat.le_refl _, Nat.le_refl _⟩ hallowed,
    fun before carets s hrun hshown caret hcaret => ?_⟩
  have hopened : (opened value).CaretKnown := fun caret hcaret => nomatch hcaret
  obtain ⟨committed, hcommitted, hle⟩ := caretKnown_of_run hopened hrun caret hcaret
  rw [hshown] at hcommitted
  rw [Option.some.inj hcommitted]
  exact hle

/-- A literal is committed and shown, another text comes in between, and the first
    one is shown again when the caret is placed. -/
def interrupted : List EditEvent :=
  [.insert "c", .renderCommitted, .render "", .renderCommitted, .afterCommit, .insert "d"]

theorem within_iff_along_fits_interrupted :
    (opened "ab").Along Allows interrupted ∧
    ((∀ before, before <+: interrupted → ∃ carets s,
        (opened "ab").run before = .ok (carets, s) ∧ s.control.IsWithin) ↔
      (opened "ab").Along Fits interrupted) ∧
    ∀ before carets s, (opened "ab").run before = .ok (carets, s) →
      s.committed = some s.control.value → s.CaretFits := by
  have hallowed : (opened "ab").Along Allows interrupted :=
    .cons trivial rfl (.cons trivial rfl (.cons trivial rfl (.cons trivial rfl
      (.cons rfl rfl (.cons trivial rfl trivial)))))
  exact ⟨hallowed, within_iff_along_fits "ab" interrupted hallowed⟩

/-- A literal is committed and shown, but the text on the screen is a shorter one when
    the caret is placed. -/
def overtaken : List EditEvent := [.insert "a", .renderCommitted, .render "", .afterCommit]

/-- The owner keeps its promises, and yet the selection comes to stand behind the text,
    where the next insertion is a fault. -/
theorem overtaken_not_within :
    (opened "").Along Allows overtaken ∧ ∃ carets s,
      (opened "").run overtaken = .ok (carets, s) ∧ s.control.value = "" ∧
      s.control.selection = (1, 1) ∧ ¬s.control.IsWithin ∧
      s.step (.insert "b") = .error (.selectionPastEnd 1) := by
  refine ⟨.cons trivial rfl (.cons trivial rfl (.cons trivial rfl (.cons rfl rfl trivial))),
    _, _, rfl, rfl, rfl, fun hwithin => ?_, rfl⟩
  exact Nat.not_succ_le_zero 0 hwithin.2

end EditSession

end SimStudio
