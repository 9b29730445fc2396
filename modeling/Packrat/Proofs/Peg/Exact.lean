/-
# The record of failures is exact

At every moment of an evaluation, the record of failures tells what has happened since it was last
empty, told by the log (`Failure.IsExact`):

| part | what has happened |
| --- | --- |
| place | the last place at which something was missed, or the first place of the text |
| tokens, words | missed at that place |
| labels | rules that were applied there, and failed |
| context | of a rule that was applied before that place, or none |

Something is missed when a term that asks for it fails with no negative lookahead around
(`Machine.Missed`).  The log only grows, so what it vouches for once it vouches for ever, and a
moment at which nothing is missed leaves an exact record exact.  Two kinds of moments change the
record: those at which a terminal fails (`Machine.isExact_expect`) and those at which a rule with a
label does (`Machine.isExact_expectLabel`).  A label puts a record in the place of another of which
it keeps a first part, so that nothing has to be known of what the rule began with.

A run that ends in a failure gives its record out, and the next one begins with an empty record.
Any other run leaves it for the next one to go on with (`Machine.Since`).
-/

import Packrat.Proofs.Peg.Record
import Packrat.Proofs.Peg.Runs
import Packrat.Proofs.Peg.Trace

namespace Packrat
namespace Peg

/-- No terminal asks for a label. -/
theorem Term.asks?_ne_label {t : Term} {label : String} : t.asks? ≠ some (.label label) := by
  cases t <;> simp [Term.asks?]

/-- At this moment nothing is missed. -/
def Moment.IsQuiet (x : Moment) : Prop := x.deed ≠ .fails ∨ x.term.asks? = none ∨ x.around ≠ 0

namespace Machine

/-! ## What has happened -/

/-- A term refers to a rule. -/
def Refers (m : Machine) (t : Term) (rule : Rule) : Prop :=
  ∃ r id, t = .ref r ∧ m.grammar.resolve? r = some id ∧ m.grammar.rules[id]? = some rule

/-- Something was asked for in vain at a place, outside all negative lookaheads. -/
def Missed (H : List Moment) (pos : Pos) (what : Expected) : Prop :=
  ∃ x ∈ H, x.deed = .fails ∧ x.around = 0 ∧ x.pos = pos ∧ x.term.asks? = some what

/-- A rule was applied at a place. -/
def Applied (m : Machine) (H : List Moment) (rule : Rule) (pos : Pos) : Prop :=
  ∃ x ∈ H, x.deed = .begins ∧ x.pos = pos ∧ x.before.halted = false ∧ m.Refers x.term rule

/-- A rule was applied at a place, and failed. -/
def Declined (m : Machine) (H : List Moment) (rule : Rule) (pos : Pos) : Prop :=
  ∃ x ∈ H, x.deed = .fails ∧ x.pos = pos ∧ x.before.halted = false ∧ m.Refers x.term rule

/-- A context is that of a rule that was applied before a place, or none. -/
def Begun (m : Machine) (H : List Moment) (context : Context) (pos : Pos) : Prop :=
  context = .topLevel ∨
    ∃ rule q, rule.context = some context ∧ m.Applied H rule q ∧ q < pos

/-- What may be on record for a place: what was missed there, and the labels of rules that were
applied there and failed. -/
def Accounts (m : Machine) (H : List Moment) (pos : Pos) : Expected → Prop
  | .token kind => Missed H pos (.token kind)
  | .word text => Missed H pos (.word text)
  | .label label => ∃ rule, rule.label = some label ∧ m.Declined H rule pos

end Machine

namespace Failure

open Machine

/-- All that a record says is vouched for by what has happened. -/
structure IsGrounded (m : Machine) (H : List Moment) (F : Failure) : Prop where
  furthest : ∀ pos what, Missed H pos what → ¬ F.pos < pos
  reached : F.pos = {} ∧ (∀ pos what, ¬ Missed H pos what) ∨ ∃ what, Missed H F.pos what
  nodup : F.expected.Nodup
  expected : ∀ what ∈ F.expected, m.Accounts H F.pos what
  context : m.Begun H F.context F.pos

/-- The record tells exactly what has happened: what it says is so, and it says something when
something was missed at its place. -/
structure IsExact (m : Machine) (H : List Moment) (F : Failure) : Prop
    extends F.IsGrounded m H where
  nonempty : ∀ what, Missed H F.pos what → F.expected ≠ []

end Failure

namespace Machine

variable {m : Machine} {H H' : List Moment} {s s' : State} {pos : Pos} {what : Expected}
  {F : Failure} {rule : Rule} {n : Nat} {x : Moment}

theorem Missed.mono (h : Missed H pos what) (hsub : H ⊆ H') : Missed H' pos what := by
  obtain ⟨x, hx, h⟩ := h
  exact ⟨x, hsub hx, h⟩

theorem Applied.mono (h : m.Applied H rule pos) (hsub : H ⊆ H') : m.Applied H' rule pos := by
  obtain ⟨x, hx, h⟩ := h
  exact ⟨x, hsub hx, h⟩

theorem Declined.mono (h : m.Declined H rule pos) (hsub : H ⊆ H') : m.Declined H' rule pos := by
  obtain ⟨x, hx, h⟩ := h
  exact ⟨x, hsub hx, h⟩

theorem Begun.mono {context : Context} (h : m.Begun H context pos) (hsub : H ⊆ H') :
    m.Begun H' context pos := by
  rcases h with htop | ⟨rule, q, hrule, happlied, hlt⟩
  · exact .inl htop
  · exact .inr ⟨rule, q, hrule, happlied.mono hsub, hlt⟩

theorem Accounts.mono (h : m.Accounts H pos what) (hsub : H ⊆ H') : m.Accounts H' pos what := by
  cases what with
  | token kind => exact Missed.mono h hsub
  | word text => exact Missed.mono h hsub
  | label label =>
    obtain ⟨rule, hrule, hdeclined⟩ := h
    exact ⟨rule, hrule, hdeclined.mono hsub⟩

/-- What was missed may be on record. -/
theorem Missed.accounts (h : Missed H pos what) : m.Accounts H pos what := by
  cases what with
  | token kind => exact h
  | word text => exact h
  | label label =>
    obtain ⟨x, -, -, -, -, hask⟩ := h
    exact absurd hask Term.asks?_ne_label

theorem missed_concat {q : Pos} : Missed (H ++ [x]) q what ↔
    Missed H q what ∨ x.deed = .fails ∧ x.around = 0 ∧ x.pos = q ∧ x.term.asks? = some what := by
  simp [Missed, or_and_right, exists_or]

end Machine

namespace Failure

open Machine

variable {m : Machine} {H H' : List Moment} {F : Failure}

/-- What is vouched for stays so while nothing more is missed. -/
theorem IsGrounded.mono (h : F.IsGrounded m H) (hsub : H ⊆ H')
    (hold : ∀ pos what, Missed H' pos what → Missed H pos what) : F.IsGrounded m H' where
  furthest pos what hmissed := h.furthest pos what (hold pos what hmissed)
  reached := by
    rcases h.reached with ⟨hstart, hnone⟩ | ⟨what, hmissed⟩
    · exact .inl ⟨hstart, fun pos what hmissed => hnone pos what (hold pos what hmissed)⟩
    · exact .inr ⟨what, hmissed.mono hsub⟩
  nodup := h.nodup
  expected what hwhat := (h.expected what hwhat).mono hsub
  context := h.context.mono hsub

theorem IsExact.mono (h : F.IsExact m H) (hsub : H ⊆ H')
    (hold : ∀ pos what, Missed H' pos what → Missed H pos what) : F.IsExact m H' where
  toIsGrounded := h.toIsGrounded.mono hsub hold
  nonempty what hmissed := h.nonempty what (hold _ what hmissed)

/-- An empty record is exact when nothing has happened. -/
theorem isExact_empty (m : Machine) : ({} : Failure).IsExact m [] where
  furthest _ _ h := by obtain ⟨x, hx, -⟩ := h; cases hx
  reached := .inl ⟨rfl, fun _ _ h => by obtain ⟨x, hx, -⟩ := h; cases hx⟩
  nodup := List.nodup_nil
  expected _ h := by cases h
  context := .inl rfl
  nonempty _ h := by obtain ⟨x, hx, -⟩ := h; cases hx

end Failure

/-! ## Asking in vain -/

/-- What is there already is not put there again. -/
theorem State.nodup_note {ws : List Expected} (what : Expected) (h : ws.Nodup) :
    (if ws.contains what then ws else ws ++ [what]).Nodup := by
  split
  · exact h
  · next hnew =>
    have hnew : what ∉ ws := by simpa using hnew
    exact List.nodup_append.mpr ⟨h, by simp, fun a ha b hb hab => by simp_all⟩

/-- The context at a place is that of an enclosing rule that began before it, or none. -/
theorem State.contextAt_cases (s : State) (pos : Pos) : s.contextAt pos = .topLevel ∨
    ∃ c ∈ s.contexts, s.contextAt pos = c.1 ∧ c.2 < pos := by
  unfold State.contextAt
  cases hfind : s.contexts.find? fun c => c.2 < pos with
  | none => exact .inl rfl
  | some c =>
    have hlt := List.find?_some hfind
    exact .inr ⟨c, List.mem_of_find?_eq_some hfind, rfl, by simpa using hlt⟩

namespace Machine

variable {m : Machine} {H H' : List Moment} {s s' s₁ : State} {pos : Pos} {what : Expected}
  {rule : Rule} {n : Nat} {x : Moment}

/-- The contexts of a state are those of rules that were applied where they say. -/
def Encloses (m : Machine) (H : List Moment) (s : State) : Prop :=
  ∀ c ∈ s.contexts, ∃ rule, rule.context = some c.1 ∧ m.Applied H rule c.2

theorem encloses_of_nil (h : s.contexts = []) : m.Encloses H s := by
  intro c hc
  rw [h] at hc
  cases hc

theorem Encloses.mono (h : m.Encloses H s) (hsub : H ⊆ H') : m.Encloses H' s := by
  intro c hc
  obtain ⟨rule, hrule, happlied⟩ := h c hc
  exact ⟨rule, hrule, happlied.mono hsub⟩

/-- The context that is put on record for a place is that of a rule applied before it, or none. -/
theorem Encloses.contextAt (h : m.Encloses H s) (pos : Pos) :
    m.Begun H (s.contextAt pos) pos := by
  rcases s.contextAt_cases pos with htop | ⟨c, hc, heq, hlt⟩
  · exact .inl htop
  · obtain ⟨rule, hrule, happlied⟩ := h c hc
    exact .inr ⟨rule, c.2, heq ▸ hrule, happlied, hlt⟩

/-- **Asking in vain keeps the record exact**, if nothing else has been missed since: either what
is asked for is missed at this moment, or it is a label for the place of the record. -/
theorem isExact_expect (hs : s.suppress = 0) (h : s.failure.IsGrounded m H)
    (hcontexts : m.Encloses H' s) (hsub : H ⊆ H')
    (hold : ∀ q w, Missed H' q w → Missed H q w ∨ q = pos)
    (haccounts : m.Accounts H' pos what) (hhere : Missed H' pos what ∨ s.failure.pos = pos)
    (hnonempty : ∀ w, Missed H s.failure.pos w → s.failure.pos ≠ pos → s.failure.expected ≠ []) :
    (s.expect pos what).failure.IsExact m H' := by
  rw [State.failure_expect hs]
  rcases Pos.lt_or_eq_or_lt s.failure.pos pos with hlt | heq | hlt
  · -- a later place: the record begins anew
    rw [if_pos hlt]
    exact {
      furthest := fun q w hmissed hlt' => by
        rcases hold q w hmissed with hbefore | rfl
        · exact h.furthest q w hbefore (Pos.lt_trans hlt hlt')
        · exact Pos.lt_irrefl _ hlt'
      reached := .inr ⟨what, hhere.resolve_right (Pos.ne_of_lt hlt)⟩
      nodup := by simp
      expected := fun w hw => by rwa [List.mem_singleton.mp hw]
      context := hcontexts.contextAt pos
      nonempty := fun _ _ => List.cons_ne_nil _ _ }
  · -- the place of the record: it says more, or has said so
    rw [heq, if_neg (Pos.lt_irrefl pos), if_pos rfl]
    exact {
      furthest := fun q w hmissed hlt' => by
        rcases hold q w hmissed with hbefore | rfl
        · exact h.furthest q w hbefore (heq ▸ hlt')
        · exact Pos.lt_irrefl _ hlt'
      reached := by
        by_cases hmissed : ∃ w, Missed H' pos w
        · exact .inr hmissed
        · rcases h.reached with ⟨hstart, hnone⟩ | ⟨w, hw⟩
          · refine .inl ⟨heq ▸ hstart, fun q w hw => ?_⟩
            rcases hold q w hw with hbefore | rfl
            · exact hnone q w hbefore
            · exact hmissed ⟨w, hw⟩
          · exact absurd ⟨w, heq ▸ hw.mono hsub⟩ hmissed
      nodup := State.nodup_note what h.nodup
      expected := fun w hw => by
        rcases State.mem_note.mp hw with rfl | hw
        · exact haccounts
        · exact heq ▸ (h.expected w hw).mono hsub
      context := by
        by_cases hempty : s.failure.expected.isEmpty = true
        · rw [if_pos hempty]
          exact hcontexts.contextAt pos
        · rw [if_neg hempty]
          exact heq ▸ h.context.mono hsub
      nonempty := fun _ _ => List.ne_nil_of_mem (State.mem_note.mpr (.inl rfl)) }
  · -- an earlier place: nothing changes
    rw [if_neg (Pos.not_lt_of_lt hlt), if_neg (Pos.ne_of_lt hlt).symm]
    exact {
      furthest := fun q w hmissed => by
        rcases hold q w hmissed with hbefore | rfl
        · exact h.furthest q w hbefore
        · exact Pos.not_lt_of_lt hlt
      reached := by
        rcases h.reached with ⟨hstart, -⟩ | ⟨w, hw⟩
        · rw [hstart] at hlt
          exact absurd hlt Pos.not_lt_start
        · exact .inr ⟨w, hw.mono hsub⟩
      nodup := h.nodup
      expected := fun w hw => (h.expected w hw).mono hsub
      context := h.context.mono hsub
      nonempty := fun w hw => by
        rcases hold _ w hw with hbefore | heq
        · exact hnonempty w hbefore (Pos.ne_of_lt hlt).symm
        · exact absurd heq.symm (Pos.ne_of_lt hlt) }

/-- A label for the place of the record takes the place of what was put there last. -/
theorem isExact_expectLabel (before : Failure) {label : String} (h : s.failure.IsExact m H)
    (hcontexts : m.Encloses H' s) (hsub : H ⊆ H')
    (hold : ∀ q w, Missed H' q w → Missed H q w) (hrule : rule.label = some label)
    (hdeclined : m.Declined H' rule pos) :
    (s.expectLabel pos before label).failure.IsExact m H' := by
  by_cases hhere : s.suppress = 0 ∧ s.failure.pos = pos
  · obtain ⟨hs, hpos⟩ := hhere
    have hkept : (if before.pos = pos then s.failure.expected.take before.expected.length else [])
        <+: s.failure.expected := by
      split
      · exact List.take_prefix _ _
      · exact List.nil_prefix
    have hgrounded : ({ s.failure with
        expected := (if before.pos = pos then s.failure.expected.take before.expected.length
          else []) } : Failure).IsGrounded m H := {
      h.toIsGrounded with
      nodup := h.nodup.sublist hkept.sublist
      expected := fun w hw => h.expected w (hkept.subset hw) }
    rw [State.expectLabel, if_pos ⟨hs, hpos⟩]
    exact isExact_expect hs hgrounded hcontexts hsub (fun q w hw => .inl (hold q w hw))
      ⟨rule, hrule, hdeclined⟩ (.inr hpos) fun _ _ hne => absurd hpos hne
  · rw [State.expectLabel_of_not hhere]
    exact h.mono hsub hold

/-! ## Moments -/

/-- The record of a state is exact, and so is what belongs to the terms around. -/
structure Holds (m : Machine) (around : Nat) (H : List Moment) (s : State) : Prop where
  muted : s.suppress = around
  encloses : m.Encloses H s
  exact : s.failure.IsExact m H

/-- All moments of a log, behind what has happened before, leave exact records. -/
def ExactAlong (m : Machine) : List Moment → List Moment → Prop
  | _, [] => True
  | H, x :: log => x.after.failure.IsExact m (H ++ [x]) ∧ ExactAlong m (H ++ [x]) log

theorem ExactAlong.append {log log' : List Moment} : ∀ {H}, m.ExactAlong H log →
    m.ExactAlong (H ++ log) log' → m.ExactAlong H (log ++ log') := by
  induction log with
  | nil =>
    intro H _ h'
    simpa using h'
  | cons x log ih =>
    intro H h h'
    exact ⟨h.1, ih h.2 (by simpa using h')⟩

/-- A log of exact records, moment by moment. -/
theorem ExactAlong.isExact {log log' : List Moment} : ∀ {H}, m.ExactAlong H log →
    log' ++ [x] <+: log → x.after.failure.IsExact m (H ++ log' ++ [x]) := by
  induction log' generalizing log with
  | nil =>
    intro H h hprefix
    obtain ⟨rest, rfl⟩ := hprefix
    simpa using h.1
  | cons y log' ih =>
    intro H h hprefix
    obtain ⟨rest, rfl⟩ := hprefix
    simpa using ih h.2 ⟨rest, by simp⟩

theorem missed_of_isQuiet {q : Pos} (hx : x.IsQuiet) (h : Missed (H ++ [x]) q what) :
    Missed H q what := by
  rcases missed_concat.mp h with h | ⟨hfails, haround, -, hask⟩
  · exact h
  · rcases hx with hx | hx | hx
    · exact absurd hfails hx
    · rw [hx] at hask
      cases hask
    · exact absurd haround hx

/-- A quiet moment changes nothing. -/
theorem Holds.concat (h : m.Holds n H s) (hx : x.IsQuiet) : m.Holds n (H ++ [x]) s where
  muted := h.muted
  encloses := h.encloses.mono (List.subset_append_left _ _)
  exact := h.exact.mono (List.subset_append_left _ _) fun _ _ => missed_of_isQuiet hx

/-- Trees do not matter. -/
theorem Holds.output (h : m.Holds n H s) (out : Array Match) :
    m.Holds n H { s with out := out } := ⟨h.muted, h.encloses, h.exact⟩

/-- Flags do not matter. -/
theorem Holds.flagged (h : m.Holds n H s) (f : Flags) : m.Holds n H (flagged s f) :=
  ⟨h.muted, h.encloses, h.exact⟩

/-- Work that begins after `H` has happened: all its moments leave exact records, and it leaves a
state of which `Q` holds with what has happened by then. -/
def Proceeds (m : Machine) (H : List Moment) (Q : List Moment → State → Prop) (τ : Trace) : Prop :=
  m.ExactAlong H τ.log ∧ τ.outcome.Leaves (Q (H ++ τ.log))

section

variable {Q R : List Moment → State → Prop} {τ : Trace} {o : Outcome}

theorem proceeds_still (h : o.Leaves (Q H)) : m.Proceeds H Q (.still o) :=
  ⟨trivial, by simpa [Trace.still] using h⟩

/-- Work that goes on behind other work. -/
theorem Proceeds.resume {onMatch : Pos → State → Trace} {onFail : State → Trace}
    (h : m.Proceeds H Q τ)
    (hmatch : ∀ H' stop s, H ⊆ H' → Q H' s → m.Proceeds H' R (onMatch stop s))
    (hfail : ∀ H' s, H ⊆ H' → Q H' s → m.Proceeds H' R (onFail s)) :
    m.Proceeds H R (τ.resume onMatch onFail) := by
  obtain ⟨hlog, hleaves⟩ := h
  have hsub : H ⊆ H ++ τ.log := List.subset_append_left _ _
  unfold Trace.resume
  cases ho : τ.outcome with
  | matched stop s =>
    rw [ho] at hleaves
    obtain ⟨hlog', hleaves'⟩ := hmatch _ stop s hsub hleaves
    exact ⟨hlog.append hlog', by simpa using hleaves'⟩
  | failed s =>
    rw [ho] at hleaves
    obtain ⟨hlog', hleaves'⟩ := hfail _ s hsub hleaves
    exact ⟨hlog.append hlog', by simpa using hleaves'⟩
  | fault f => exact ⟨hlog, trivial⟩

end

/-! ## Loops -/

/-- An evaluator whose work keeps records exact, under so many negative lookaheads. -/
def KeepsExact (m : Machine) (around : Nat) (ev : Tracer) : Prop :=
  ∀ H t pos s, m.Holds around H s → m.Proceeds H (m.Holds around) (ev t pos s)

section

variable {ev : Tracer} (hev : m.KeepsExact n ev)
include hev

theorem seqTrace_keeps (mark : Nat) (ts : List Term) : ∀ H pos s, m.Holds n H s →
    m.Proceeds H (m.Holds n) (seqTrace ev mark ts pos s) := by
  induction ts with
  | nil => exact fun _ _ _ hs => proceeds_still hs
  | cons t ts ih =>
    intro H pos s hs
    exact (hev H t pos s hs).resume (fun H' stop s' _ hs' => ih H' stop s' hs')
      fun H' s' _ hs' => proceeds_still (hs'.output _)

theorem choiceTrace_keeps (mark : Nat) (pos : Pos) (ts : List Term) : ∀ H s, m.Holds n H s →
    m.Proceeds H (m.Holds n) (choiceTrace ev mark pos ts s) := by
  induction ts with
  | nil => exact fun _ _ hs => proceeds_still hs
  | cons t ts ih =>
    intro H s hs
    exact (hev H t pos s hs).resume (fun H' stop s' _ hs' => proceeds_still hs')
      fun H' s' _ hs' => ih H' _ (hs'.output _)

theorem repeatTrace_keeps (t : Term) (fuel : Nat) : ∀ H pos s, m.Holds n H s →
    m.Proceeds H (m.Holds n) (repeatTrace ev t fuel pos s) := by
  induction fuel with
  | zero => exact fun _ _ _ _ => proceeds_still trivial
  | succ fuel ih =>
    intro H pos s hs
    refine (hev H t pos s hs).resume (fun H' stop s' _ hs' => ?_)
      fun H' s' _ hs' => proceeds_still (hs'.output _)
    split
    · exact proceeds_still (hs'.output _)
    · exact ih H' stop s' hs'

theorem tailTrace_keeps (mark : Nat) (pos : Pos) (tails : List (Kind × Term)) : ∀ H s,
    m.Holds n H s → m.Proceeds H (m.Holds n) (tailTrace ev mark pos tails s) := by
  induction tails with
  | nil => exact fun _ _ hs => proceeds_still hs
  | cons tail tails ih =>
    obtain ⟨kind, t⟩ := tail
    intro H s hs
    exact (hev H t pos s hs).resume (fun H' stop s' _ hs' => proceeds_still (hs'.output _))
      fun H' s' _ hs' => ih H' _ (hs'.output _)

theorem foldTrace_keeps (tails : List (Kind × Term)) (max : Option Nat) (mark fuel : Nat) :
    ∀ folded H pos s, m.Holds n H s →
      m.Proceeds H (m.Holds n) (foldTrace ev tails max mark fuel folded pos s) := by
  induction fuel with
  | zero => exact fun _ _ _ _ _ => proceeds_still trivial
  | succ fuel ih =>
    intro folded H pos s hs
    simp only [foldTrace]
    split
    · exact proceeds_still hs
    · exact (tailTrace_keeps hev mark pos tails H s hs).resume
        (fun H' stop s' _ hs' => ih (folded + 1) H' stop s' hs')
        fun H' s' _ hs' => proceeds_still hs'

end

/-! ## Rules -/

/-- What a term leaves of which the last moment is still to come: after a failure, the state is
told by what has happened up to that moment. -/
def Closes (m : Machine) (around : Nat) (H : List Moment) (t : Term) (pos : Pos) (s : State)
    (τ : Trace) : Prop :=
  m.ExactAlong H τ.log ∧
    match τ.outcome with
    | .matched _ s' => m.Holds around (H ++ τ.log) s'
    | .failed s' => m.Holds around (H ++ τ.log ++ [⟨.fails, t, pos, around, s, s'⟩]) s'
    | .fault _ => True

variable {t : Term} {τ : Trace} {ev : Tracer}

/-- A term that asks for nothing itself misses nothing when it fails. -/
theorem Proceeds.closes (h : m.Proceeds H (m.Holds n) τ) (ht : t.asks? = none) :
    m.Closes n H t pos s τ := by
  obtain ⟨hlog, hleaves⟩ := h
  refine ⟨hlog, ?_⟩
  cases ho : τ.outcome with
  | matched stop s' =>
    rw [ho] at hleaves
    exact hleaves
  | failed s' =>
    rw [ho] at hleaves
    exact Holds.concat hleaves (.inr (.inl ht))
  | fault f => trivial

/-- With its first and its last moment, a term keeps records exact. -/
theorem Closes.framed (hs : m.Holds n H s)
    (h : m.Closes n (H ++ [⟨.begins, t, pos, n, s, s⟩]) t pos s τ) :
    m.Proceeds H (m.Holds n) (τ.framed n t pos s) := by
  have hbegins := hs.concat (x := ⟨.begins, t, pos, n, s, s⟩) (.inl (by simp))
  obtain ⟨hlog, hend⟩ := h
  unfold Trace.framed Proceeds
  cases ho : τ.outcome with
  | matched stop s' =>
    rw [ho] at hend
    have hlast : m.Holds n (H ++ [⟨.begins, t, pos, n, s, s⟩] ++ τ.log ++
        [⟨.matches, t, pos, n, s, s'⟩]) s' := Holds.concat hend (.inl (by simp))
    exact ⟨⟨hbegins.exact, hlog.append ⟨hlast.exact, trivial⟩⟩,
      by simpa [Outcome.Leaves, Trace.closing] using hlast⟩
  | failed s' =>
    rw [ho] at hend
    exact ⟨⟨hbegins.exact, hlog.append ⟨hend.exact, trivial⟩⟩,
      by simpa [Outcome.Leaves, Trace.closing] using hend⟩
  | fault f =>
    exact ⟨⟨hbegins.exact, by simpa [Trace.closing] using hlog⟩, trivial⟩

/-- Inside a rule, its own context is that of a rule that has been applied. -/
theorem Holds.entering (h : m.Holds n H s) (key : MemoKey) (happlied : m.Applied H rule pos) :
    m.Holds n H (entering pos s rule key) where
  muted := h.muted
  encloses := by
    intro c hc
    unfold Machine.entering innerContexts at hc
    cases hcontext : rule.context with
    | none =>
      rw [hcontext] at hc
      exact h.encloses c hc
    | some context =>
      rw [hcontext] at hc
      rcases List.mem_cons.mp hc with rfl | hc
      · exact ⟨rule, hcontext, happlied⟩
      · exact h.encloses c hc
  exact := h.exact

/-- Behind a rule, contexts are what they were before it. -/
theorem Holds.leavingMatched (hs : m.Holds n H s) (hsub : H ⊆ H') (h : m.Holds n H' s')
    (key : MemoKey) (stop : Pos) : m.Holds n H' (leavingMatched s rule key stop s') := by
  have hencloses := hs.encloses.mono hsub
  unfold Machine.leavingMatched
  cases rule.kind <;> exact ⟨h.muted, hencloses, h.exact⟩

/-- **A rule that fails keeps the record exact**: its label is that of a rule that has just
failed. -/
theorem Holds.leavingFailed (hs : m.Holds n H s) (hsub : H ⊆ H') (h : m.Holds n H' s')
    (key : MemoKey) (hx : x.IsQuiet) (hdeclined : m.Declined (H' ++ [x]) rule pos) :
    m.Holds n (H' ++ [x]) (leavingFailed pos s rule key s') := by
  have hencloses : m.Encloses (H' ++ [x]) s :=
    hs.encloses.mono (List.subset_append_of_subset_left _ hsub)
  have hnow := h.concat hx
  unfold Machine.leavingFailed
  cases hlabel : rule.label with
  | none => exact ⟨h.muted, hencloses, hnow.exact⟩
  | some label =>
    obtain ⟨failure, hnotes⟩ := State.notes_expectLabel
      ((leaving s s').truncate s.out.size) pos s.failure label
    have hexact := isExact_expectLabel (s := (leaving s s').truncate s.out.size) s.failure h.exact
      hencloses (List.subset_append_left _ _) (fun q w => missed_of_isQuiet hx) hlabel hdeclined
    refine ⟨?_, ?_, hexact⟩
    · simp only [hnotes]
      exact h.muted
    · simp only [hnotes]
      exact hencloses

/-- A rule that is entered. -/
theorem enterTrace_closes (hev : m.KeepsExact n ev) (hs : m.Holds n H s) (key : MemoKey)
    {s₀ : State} (hlive : s₀.halted = false) (hrefers : m.Refers t rule)
    (happlied : m.Applied H rule pos) :
    m.Closes n H t pos s₀ (enterTrace ev rule key pos s) := by
  obtain ⟨hlog, hbody⟩ := hev H rule.body pos _ (hs.entering key happlied)
  have hsub : H ⊆ H ++ (ev rule.body pos (Machine.entering pos s rule key)).log :=
    List.subset_append_left _ _
  have hquiet : t.asks? = none := by
    obtain ⟨r, -, rfl, -⟩ := hrefers
    rfl
  unfold enterTrace Trace.resume
  cases ho : (ev rule.body pos (Machine.entering pos s rule key)).outcome with
  | matched stop s' =>
    rw [ho] at hbody
    refine ⟨by simpa [Trace.still] using hlog, ?_⟩
    simpa [Trace.still] using hs.leavingMatched hsub hbody key stop
  | failed s' =>
    rw [ho] at hbody
    refine ⟨by simpa [Trace.still] using hlog, ?_⟩
    simpa [Trace.still] using hs.leavingFailed hsub hbody key
      (x := ⟨.fails, t, pos, n, s₀, Machine.leavingFailed pos s rule key s'⟩)
      (.inr (.inl hquiet)) ⟨_, List.mem_append_right _ (List.mem_singleton_self _), rfl, rfl, hlive,
        hrefers⟩
  | fault f => exact ⟨hlog, trivial⟩

/-- A rule that is applied, or looked up. -/
theorem applyTrace_closes (hev : m.KeepsExact n ev) (hs : m.Holds n H s) {id : Nat}
    (hrefers : m.Refers t rule) (happlied : s.halted = false → m.Applied H rule pos) :
    m.Closes n H t pos s (m.applyTrace ev id rule pos s) := by
  have hquiet : t.asks? = none := by
    obtain ⟨r, -, rfl, -⟩ := hrefers
    rfl
  have hstill : ∀ o : Outcome, o.Leaves (m.Holds n H) → m.Closes n H t pos s (.still o) :=
    fun o h => (proceeds_still h).closes hquiet
  unfold applyTrace
  split
  · exact hstill _ hs
  · next hhalted =>
    have hlive : s.halted = false := by simpa using hhalted
    have hstepped : m.Holds n H (stepped s) := ⟨hs.muted, hs.encloses, hs.exact⟩
    have henter := enterTrace_closes hev hstepped ⟨id, pos, s.flags⟩ hlive hrefers (happlied hlive)
    split
    · exact hstill _ (Holds.mk hstepped.muted hstepped.encloses hstepped.exact)
    · split
      · exact hstill _ (Holds.mk hstepped.muted hstepped.encloses hstepped.exact)
      · unfold consultTrace
        split
        · exact henter
        · exact hstill _ trivial
        · split
          · exact hstill _ hstepped
          · exact henter
        · split
          · exact hstill _ (hstepped.output _)
          · exact henter

/-! ## Terms -/

/-- What a term asks for in vain goes on record, unless a negative lookahead is around. -/
theorem Holds.expect (hs : m.Holds n H s) (hask : t.asks? = some what) :
    m.Holds n (H ++ [⟨.fails, t, pos, n, s, s'⟩]) (s.expect pos what) := by
  obtain rfl | hmuted := Nat.eq_zero_or_pos n
  · have hsub : H ⊆ H ++ [⟨.fails, t, pos, 0, s, s'⟩] := List.subset_append_left _ _
    have hmissed : Missed (H ++ [⟨.fails, t, pos, 0, s, s'⟩]) pos what :=
      missed_concat.mpr (.inr ⟨rfl, rfl, rfl, hask⟩)
    have hexact := isExact_expect hs.muted hs.exact.toIsGrounded (hs.encloses.mono hsub) hsub
      (fun q w hw => (missed_concat.mp hw).imp_right fun hnow => hnow.2.2.1.symm)
      hmissed.accounts (.inl hmissed) fun w hw _ => hs.exact.nonempty w hw
    obtain ⟨failure, hnotes⟩ := s.notes_expect pos what
    rw [hnotes] at hexact ⊢
    exact ⟨hs.muted, hs.encloses.mono hsub, hexact⟩
  · rw [State.expect_of_muted (hs.muted ▸ hmuted)]
    exact hs.concat (.inr (.inr (Nat.ne_of_gt hmuted)))

/-- A terminal. -/
theorem closes_terminal (fuel : Nat) (eval : Evaluator) (ht : t.isTerminal = true)
    (hs : m.Holds n H s) : m.Closes n H t pos s (.still (m.step fuel eval t pos s)) := by
  have hread := m.step_readsAs pos s fuel eval ht
  refine ⟨trivial, ?_⟩
  simp only [Trace.still, List.append_nil]
  cases ho : m.step fuel eval t pos s with
  | matched stop s' =>
    rw [ho] at hread
    obtain ⟨ns, -, rfl⟩ := hread
    exact hs.output _
  | failed s' =>
    have hnote := step_terminal_failed ht ho
    cases hask : t.asks? with
    | none =>
      rw [hask] at hnote
      subst hnote
      exact hs.concat (.inr (.inl hask))
    | some what =>
      rw [hask] at hnote
      show m.Holds n (H ++ [⟨.fails, t, pos, n, s, s'⟩]) s'
      rw [show s' = s.expect pos what from hnote]
      exact hs.expect hask
  | fault f => trivial

/-- **What is done inside a term keeps the record exact**, if what is done inside the terms in it
does. -/
theorem stepTrace_closes (fuel : Nat) {ev : Nat → Tracer} (hev : ∀ n, m.KeepsExact n (ev n))
    (hs : m.Holds n H s) (hbegun : ⟨.begins, t, pos, n, s, s⟩ ∈ H) :
    m.Closes n H t pos s (m.stepTrace fuel ev n t pos s) := by
  cases t with
  | token _ | split _ | word _ | any | ended =>
    exact closes_terminal fuel (m.eval fuel) rfl hs
  | seq items => exact (seqTrace_keeps (hev n) _ items H pos s hs).closes rfl
  | choice items => exact (choiceTrace_keeps (hev n) _ pos items H s hs).closes rfl
  | opt body =>
    refine Proceeds.closes ?_ rfl
    exact (hev n H body pos s hs).resume (fun H' stop s' _ hs' => proceeds_still hs')
      fun H' s' _ hs' => proceeds_still (hs'.output _)
  | star body => exact (repeatTrace_keeps (hev n) body fuel H pos s hs).closes rfl
  | plus body =>
    refine Proceeds.closes ?_ rfl
    exact (hev n H body pos s hs).resume
      (fun H' stop s' _ hs' => repeatTrace_keeps (hev n) body fuel H' stop s' hs')
      fun H' s' _ hs' => proceeds_still hs'
  | ahead body =>
    refine Proceeds.closes ?_ rfl
    exact (hev n H body pos s hs).resume (fun H' stop s' _ hs' => proceeds_still (hs'.output _))
      fun H' s' _ hs' => proceeds_still (hs'.output _)
  | notAhead body =>
    -- inside, one more lookahead is around; behind it, the count is what it was
    have hinside : m.Holds (n + 1) H (muted s) :=
      ⟨congrArg (· + 1) hs.muted, hs.encloses, hs.exact⟩
    have hbehind : ∀ H' s', m.Holds (n + 1) H' s' → m.Holds n H' (unmuted s s') := by
      intro H' s' hs'
      refine ⟨?_, hs'.encloses, hs'.exact⟩
      show s'.suppress - 1 = n
      rw [hs'.muted, Nat.add_sub_cancel]
    refine Proceeds.closes ?_ rfl
    exact (hev (n + 1) H body pos _ hinside).resume
      (fun H' _ s' _ hs' => proceeds_still (hbehind H' s' hs'))
      fun H' s' _ hs' => proceeds_still (hbehind H' s' hs')
  | ref r =>
    simp only [stepTrace]
    split
    · refine Proceeds.closes ?_ rfl
      exact proceeds_still hs
    · next id hid =>
      split
      · refine Proceeds.closes ?_ rfl
        exact proceeds_still trivial
      · next rule hrule =>
        have hrefers : m.Refers (.ref r) rule := ⟨r, id, rfl, hid, hrule⟩
        exact applyTrace_closes (hev n) hs hrefers fun hlive =>
          ⟨_, hbegun, rfl, rfl, hlive, hrefers⟩
  | node kind body =>
    refine Proceeds.closes ?_ rfl
    exact (hev n H body pos s hs).resume (fun H' stop s' _ hs' => proceeds_still (hs'.output _))
      fun H' s' _ hs' => proceeds_still hs'
  | «scoped» set clear body =>
    refine Proceeds.closes ?_ rfl
    exact (hev n H body pos _ (hs.flagged _)).resume
      (fun H' stop s' _ hs' => proceeds_still (hs'.flagged _))
      fun H' s' _ hs' => proceeds_still (hs'.flagged _)
  | gate flags whenSet body =>
    refine Proceeds.closes ?_ rfl
    simp only [stepTrace]
    split
    · exact hev n H body pos s hs
    · exact proceeds_still hs
  | fold operand tails max =>
    refine Proceeds.closes ?_ rfl
    exact (hev n H operand pos s hs).resume
      (fun H' stop s' _ hs' => foldTrace_keeps (hev n) tails max _ _ 0 H' stop s' hs')
      fun H' s' _ hs' => proceeds_still hs'

/-- **Every evaluation keeps the record exact.** -/
theorem trace_keepsExact (m : Machine) (fuel : Nat) : ∀ n, m.KeepsExact n (m.trace fuel n) := by
  induction fuel with
  | zero => exact fun _ _ _ _ _ _ => proceeds_still trivial
  | succ fuel ih =>
    intro n H t pos s hs
    have hbegins := hs.concat (x := ⟨.begins, t, pos, n, s, s⟩) (.inl (by simp))
    exact (stepTrace_closes fuel ih hbegins (by simp)).framed hs

/-! ## The place of the record -/

/-- What has happened by then bounds what the record says later. -/
theorem not_lt_of_isExact {F G : Failure} (h : F.IsExact m H) (h' : G.IsExact m H')
    (hsub : H ⊆ H') : ¬ G.pos < F.pos := by
  rcases h.reached with ⟨hstart, -⟩ | ⟨what, hmissed⟩
  · rw [hstart]
    exact Pos.not_lt_start
  · exact h'.furthest F.pos what (hmissed.mono hsub)

theorem ExactAlong.not_lt {log : List Moment} {F : Failure} (h : F.IsExact m H) : ∀ {H'},
    H ⊆ H' → m.ExactAlong H' log → ∀ x ∈ log, ¬ x.after.failure.pos < F.pos := by
  induction log with
  | nil => exact fun _ _ _ hx => absurd hx List.not_mem_nil
  | cons y log ih =>
    intro H' hsub hlog x hx
    have hsub' : H ⊆ H' ++ [y] := List.subset_append_of_subset_left _ hsub
    rcases List.mem_cons.mp hx with rfl | hx
    · exact not_lt_of_isExact h hlog.1 hsub'
    · exact ih hsub' hlog.2 x hx

/-- The place of the record never decreases along a log. -/
theorem ExactAlong.pairwise {log : List Moment} : ∀ {H}, m.ExactAlong H log →
    (log.map fun x => x.after.failure.pos).Pairwise fun p q => ¬ q < p := by
  induction log with
  | nil => exact fun _ => .nil
  | cons x log ih =>
    intro H hlog
    refine List.pairwise_cons.mpr ⟨fun q hq => ?_, ih hlog.2⟩
    obtain ⟨y, hy, rfl⟩ := List.mem_map.mp hq
    exact hlog.2.not_lt hlog.1 (List.Subset.refl _) y hy

/-! ## Runs -/

/-- A run with a log. -/
def runTrace (m : Machine) (fuel : Nat) (root : Term) (s : State) : Trace :=
  m.trace fuel 0 root {} { s with out := #[] }

/-- What has happened since the record of a state was last empty, over runs one after the other:
at first nothing, and nothing again when a run has given its record out. -/
inductive Since (m : Machine) : List Moment → State → Prop where
  | start {s : State} : s.failure = {} → s.suppress = 0 → s.contexts = [] → Since m [] s
  | kept {H : List Moment} {s : State} {r : Run} (fuel : Nat) (root : Term) : Since m H s →
      m.runWith fuel root s = .ok r → (∀ F, r.result ≠ .error (.failure F)) →
      Since m (H ++ (m.runTrace fuel root s).log) r.state
  | taken {H : List Moment} {s : State} {r : Run} (fuel : Nat) (root : Term) (F : Failure) :
      Since m H s → m.runWith fuel root s = .ok r → r.result = .error (.failure F) →
      Since m [] r.state

/-- A run leaves the state that the evaluation does, or gives out its record. -/
theorem leaves_of_runWith {Q : State → Prop} {fuel : Nat} {root : Term} {r : Run}
    (hQ : (m.eval fuel root {} { s with out := #[] }).Leaves Q)
    (h : m.runWith fuel root s = .ok r) :
    (∀ F, r.result ≠ .error (.failure F)) ∧ Q r.state ∨
      ∃ s', Q s' ∧ r.state = { s' with failure := {} } ∧
        r.result = .error (.failure s'.failure) := by
  simp only [runWith] at h
  cases ho : m.eval fuel root {} { s with out := #[] } with
  | matched stop s' =>
    rw [ho] at hQ h
    obtain rfl := Except.ok.inj h
    refine .inl ⟨fun F => ?_, by rwa [state_ended]⟩
    unfold runWith.ended
    split_ifs <;> simp
  | failed s' =>
    rw [ho] at hQ h
    obtain rfl := Except.ok.inj h
    cases hhalted : s'.halted with
    | true =>
      have hstop : s'.exhausted = true ∨ s'.tooDeep = true := by
        simpa [State.halted] using hhalted
      refine .inl ⟨fun F => ?_, ?_⟩
      · unfold runWith.ended
        rcases hstop with hstop | hstop
        · simp [hstop]
        · simp only [hstop, if_true]
          split_ifs <;> simp
      · simp only [state_ended, if_true]
        exact hQ
    | false =>
      have hlive : s'.exhausted = false ∧ s'.tooDeep = false := by
        simpa [State.halted] using hhalted
      exact .inr ⟨s', hQ, by simp [state_ended], by simp [runWith.ended, hlive]⟩
  | fault f =>
    rw [ho] at h
    cases h

/-- Every evaluation gives the contexts back. -/
theorem eval_contexts (m : Machine) (fuel : Nat) (t : Term) (pos : Pos) (s : State) :
    (m.eval fuel t pos s).Leaves fun s' => s'.contexts = s.contexts := by
  have hfaith := m.eval_isFaithful fuel t pos s
  cases ho : m.eval fuel t pos s with
  | matched stop s' =>
    rw [ho] at hfaith
    obtain ⟨ns, hext, -⟩ := hfaith
    exact hext.contexts
  | failed s' =>
    rw [ho] at hfaith
    exact hfaith.1.contexts
  | fault f => trivial

/-- What a run does to a state of which the record is exact. -/
theorem eval_holds {fuel : Nat} {root : Term} (h : m.Holds 0 H s) (hcontexts : s.contexts = []) :
    (m.eval fuel root {} { s with out := #[] }).Leaves fun s' =>
      m.Holds 0 (H ++ (m.runTrace fuel root s).log) s' ∧ s'.contexts = [] := by
  obtain ⟨-, hleaves⟩ := m.trace_keepsExact fuel 0 H root {} _ (h.output #[])
  have hback := m.eval_contexts fuel root {} { s with out := #[] }
  rw [outcome_trace] at hleaves
  cases ho : m.eval fuel root {} { s with out := #[] } with
  | matched stop s' | failed s' =>
    rw [ho] at hleaves hback
    exact ⟨hleaves, hback.trans hcontexts⟩
  | fault f => trivial

/-- Between runs, the record is exact. -/
theorem Since.holds (h : m.Since H s) : m.Holds 0 H s ∧ s.contexts = [] := by
  induction h with
  | start hfailure hsuppress hcontexts =>
    exact ⟨⟨hsuppress, encloses_of_nil hcontexts, hfailure ▸ Failure.isExact_empty m⟩, hcontexts⟩
  | kept fuel root _ hrun hkept ih =>
    rcases leaves_of_runWith (eval_holds ih.1 ih.2) hrun with ⟨-, hleft⟩ | ⟨s', -, -, htaken⟩
    · exact hleft
    · exact absurd htaken (hkept _)
  | taken fuel root F _ hrun htaken ih =>
    rcases leaves_of_runWith (eval_holds ih.1 ih.2) hrun with ⟨hkept, -⟩ | ⟨s', hleft, heq, -⟩
    · exact absurd htaken (hkept F)
    · rw [heq]
      exact ⟨⟨hleft.1.muted, encloses_of_nil hleft.2, Failure.isExact_empty m⟩, hleft.2⟩

/-- **The record of failures is exact.**  Whatever runs have come before, and whatever the table,
the limits and the root, it tells after every moment of a run what has happened since it was last
empty; its place never decreases, and what a run gives out is exact. -/
theorem record_isExact (h : m.Since H s) (fuel : Nat) (root : Term) :
    (m.runTrace fuel root s).outcome = m.eval fuel root {} { s with out := #[] } ∧
      (∀ log x, log ++ [x] <+: (m.runTrace fuel root s).log →
        x.after.failure.IsExact m (H ++ log ++ [x])) ∧
      (s.failure.pos :: (m.runTrace fuel root s).log.map fun x => x.after.failure.pos).Pairwise
        (fun p q => ¬ q < p) ∧
      ∀ r F, m.runWith fuel root s = .ok r → r.result = .error (.failure F) →
        F.IsExact m (H ++ (m.runTrace fuel root s).log) := by
  obtain ⟨hs, hcontexts⟩ := h.holds
  obtain ⟨hlog, -⟩ := m.trace_keepsExact fuel 0 H root {} _ (hs.output #[])
  refine ⟨m.outcome_trace fuel 0 root {} _, fun log x => hlog.isExact, ?_, ?_⟩
  · refine List.pairwise_cons.mpr ⟨fun q hq => ?_, hlog.pairwise⟩
    obtain ⟨x, hx, rfl⟩ := List.mem_map.mp hq
    exact hlog.not_lt hs.exact (List.Subset.refl _) x hx
  · intro r F hrun hresult
    rcases leaves_of_runWith (eval_holds hs hcontexts) hrun with ⟨hkept, -⟩ | ⟨s', hleft, -, htaken⟩
    · exact absurd hresult (hkept F)
    · rw [hresult] at htaken
      cases htaken
      exact hleft.1.exact

/-- A name in parentheses, which is called a name where it is missing. -/
def nameMachine : Machine where
  grammar := ⟨#[⟨"names", none, none, none,
      .seq [.token .lParen, .ref (.linked 1), .token .rParen]⟩,
    ⟨"name", none, some "name", none, .choice [.token .ident, .token .underscore]⟩]⟩
  tokens := #[⟨.lParen, "("⟩, ⟨.plus, "+"⟩, ⟨.eof, ""⟩]

/-- The first run can do without the name, and what it misses stays on record.  The second one does
not get so far, and gives out what the first one has missed. -/
theorem record_isExact_names : ∃ r r' F,
    nameMachine.runWith 6 (.opt (.ref (.linked 0))) {} = .ok r ∧
      nameMachine.runWith 1 (.token .plus) r.state = .ok r' ∧ r'.result = .error (.failure F) ∧
      F = ⟨⟨1, 0⟩, [.label "name"], .topLevel⟩ ∧
      ∃ H, nameMachine.Since H r.state ∧
        F.IsExact nameMachine (H ++ (nameMachine.runTrace 1 (.token .plus) r.state).log) := by
  have hruns : (nameMachine.runWith 6 (.opt (.ref (.linked 0))) {}).toOption.map (fun r =>
      (r.result, (nameMachine.runWith 1 (.token .plus) r.state).toOption.map (·.result))) =
      some (.ok ([], {}), some (.error (.failure ⟨⟨1, 0⟩, [.label "name"], .topLevel⟩))) := by cbv
  obtain ⟨r, hfirst, heq⟩ := exists_run_of_toOption hruns
  obtain ⟨hresult, hagain⟩ := Prod.mk.inj heq
  obtain ⟨r', hsecond, hgiven⟩ := exists_run_of_toOption hagain
  have hsince := Since.kept 6 _ (.start rfl rfl rfl) hfirst fun F => by simp [hresult]
  have hexact := record_isExact hsince 1 (.token .plus)
  exact ⟨r, r', _, hfirst, hsecond, hgiven, rfl, _, hsince, hexact.2.2.2 r' _ hsecond hgiven⟩

end Machine
end Peg
end Packrat
