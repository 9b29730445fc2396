/-
# Ready for a term

What must hold before a term is evaluated, so that no rule is entered while it is being
evaluated at the same place (`Machine.Ready`), and what evaluating leaves (`Machine.Keeps`):

* every rule being evaluated began at an earlier place, or at this one with a rank not below
  a bound, while all left calls of the term have ranks below it;
* no rule is remembered as having matched up to an earlier place, nor up to its own
  beginning unless it is nullable.

Behind a term that has read something every bound will do, since no rule is being evaluated
there (`Ready.after`).  Places ahead, bound and size of the term make a number that goes
down with every term evaluated inside another (`Machine.cost`).
-/

import Packrat.Proofs.Peg.Lookup
import Packrat.Proofs.Peg.Output
import Packrat.Proofs.Peg.Part
import Packrat.Proofs.Peg.Place

namespace Packrat
namespace Peg
namespace Machine

variable (m : Machine) (rank : Nat → Nat) (bounded : Prop)

/-- Every left call of a term has a rank below the bound. -/
def CallsBelow (t : Term) (bound : Nat) : Prop :=
  ∀ r ∈ t.leftCalls m.grammar.isNullable, ∀ id, m.grammar.resolve? r = some id →
    id < m.grammar.rules.size → rank id < bound

/-- What a table may say of a key. -/
def IsForward (key : MemoKey) (e : MemoEntry) : Prop :=
  ∀ stop ns, e = .matched stop ns →
    key.pos.Advances stop (m.grammar.isNullable (.linked key.rule)) ∧ m.IsPlace bounded stop

/-- A term may be evaluated whose left calls have ranks below the bound. -/
structure Ready (pos : Pos) (bound : Nat) (memo : Memo) : Prop where
  place : m.IsPlace bounded pos
  clear : ∀ key, memo.get? key = some .inProgress →
    key.pos < pos ∨ key.pos = pos ∧ bound ≤ rank key.rule
  forward : ∀ key e, memo.get? key = some e → m.IsForward bounded key e

/-- What evaluating a term leaves of a table: the same rules are being evaluated, and it
says nothing that it may not. -/
structure Keeps (memo memo' : Memo) : Prop where
  active : ∀ key, memo'.get? key = some .inProgress ↔ memo.get? key = some .inProgress
  forward : (∀ key e, memo.get? key = some e → m.IsForward bounded key e) →
    ∀ key e, memo'.get? key = some e → m.IsForward bounded key e

variable {m rank bounded} {pos stop : Pos} {bound : Nat} {memo memo' memo'' : Memo}

theorem Keeps.refl (memo : Memo) : m.Keeps bounded memo memo := ⟨fun _ => Iff.rfl, fun h => h⟩

theorem Keeps.trans (h : m.Keeps bounded memo memo') (h' : m.Keeps bounded memo' memo'') :
    m.Keeps bounded memo memo'' :=
  ⟨fun key => (h'.active key).trans (h.active key), fun hforward => h'.forward (h.forward hforward)⟩

theorem Ready.keeps (h : m.Ready rank bounded pos bound memo)
    (hkeeps : m.Keeps bounded memo memo') :
    m.Ready rank bounded pos bound memo' :=
  ⟨h.place, fun key hkey => h.clear key ((hkeeps.active key).mp hkey), hkeeps.forward h.forward⟩

/-- A rule of lower rank may be entered: it joins the rules being evaluated. -/
theorem Ready.enter (h : m.Ready rank bounded pos bound memo) (key : MemoKey)
    (hpos : key.pos = pos) (hrank : rank key.rule < bound) :
    m.Ready rank bounded pos (rank key.rule) (memo.insert key .inProgress) := by
  refine ⟨h.place, fun key' hkey' => ?_, fun key' e he => ?_⟩
  · rw [Memo.get?_insert] at hkey'
    split_ifs at hkey' with heq
    · exact .inr ⟨heq ▸ hpos, by rw [heq]⟩
    · exact (h.clear key' hkey').imp_right fun ⟨hsame, hle⟩ => ⟨hsame, hrank.le.trans hle⟩
  · rw [Memo.get?_insert] at he
    split_ifs at he
    · cases he
      exact fun stop ns heq => by cases heq
    · exact h.forward key' e he

/-- A rule of lower rank is not being evaluated here. -/
theorem Ready.get?_ne (h : m.Ready rank bounded pos bound memo) (key : MemoKey)
    (hpos : key.pos = pos) (hrank : rank key.rule < bound) :
    memo.get? key ≠ some .inProgress := by
  intro hkey
  rcases h.clear key hkey with hlt | ⟨-, hle⟩
  · exact Pos.lt_irrefl pos (hpos ▸ hlt)
  · omega

/-- What came of a rule is noted in the place of the mark that it was being evaluated. -/
theorem Keeps.noted {key : MemoKey} {e : MemoEntry} (hnew : memo.get? key ≠ some .inProgress)
    (h : m.Keeps bounded (memo.insert key .inProgress) memo') (hdone : e ≠ .inProgress)
    (he : m.IsForward bounded key e) : m.Keeps bounded memo (memo'.insert key e) := by
  refine ⟨fun key' => ?_, fun hforward key' e' he' => ?_⟩
  · have hactive := h.active key'
    rw [Memo.get?_insert] at hactive ⊢
    split_ifs with heq
    · subst heq
      exact ⟨fun h => absurd (Option.some.inj h) hdone, fun h => absurd h hnew⟩
    · rwa [if_neg heq] at hactive
  · rw [Memo.get?_insert] at he'
    split_ifs at he' with heq
    · cases he'
      exact heq ▸ he
    · refine h.forward (fun key'' e'' he'' => ?_) key' e' he'
      rw [Memo.get?_insert] at he''
      split_ifs at he''
      · cases he''
        exact fun stop ns heq => by cases heq
      · exact hforward key'' e'' he''

/-! ## What is left to do -/

variable (m)

/-- Number of places that a bounded run still has ahead. -/
def remaining (pos : Pos) : Nat := 256 * m.tokens.size - pos.ordinal

/-- A bound on the terms that are nested in the evaluation of a term of a given size, when
no rule's body is larger than `largest`. -/
def cost (largest : Nat) (pos : Pos) (bound size : Nat) : Nat :=
  (m.remaining pos * (m.grammar.rules.size + 1) + bound) * (largest + 1) + size

variable {m} {size : Nat}

theorem remaining_lt (hb : bounded) (hstop : m.IsPlace bounded stop) (hlt : pos < stop) :
    m.remaining stop < m.remaining pos := by
  have hle := hstop.ordinal_le hb
  rw [Pos.lt_iff_ordinal] at hlt
  rw [remaining, remaining]
  omega

/-- Behind something that was read there is less to do, whatever the bound. -/
theorem cost_le_of_lt {largest : Nat} (hb : bounded) (hstop : m.IsPlace bounded stop)
    (hlt : pos < stop) :
    m.cost largest stop m.grammar.rules.size size ≤ m.cost largest pos bound size := by
  have hless := remaining_lt hb hstop hlt
  have hplaces : (m.remaining stop + 1) * (m.grammar.rules.size + 1) ≤
      m.remaining pos * (m.grammar.rules.size + 1) := Nat.mul_le_mul_right _ hless
  rw [Nat.add_mul, Nat.one_mul] at hplaces
  refine Nat.add_le_add_right (Nat.mul_le_mul_right _ ?_) size
  omega

/-- The body of a rule is less to do than the rule. -/
theorem cost_body_lt {largest id : Nat} (hrank : rank id < bound) {body : Term}
    (hbody : body.size ≤ largest) :
    m.cost largest pos (rank id) body.size < m.cost largest pos bound size := by
  have hstep : (m.remaining pos * (m.grammar.rules.size + 1) + rank id + 1) * (largest + 1) ≤
      (m.remaining pos * (m.grammar.rules.size + 1) + bound) * (largest + 1) :=
    Nat.mul_le_mul_right _ (by omega)
  rw [Nat.add_mul _ 1, Nat.one_mul] at hstep
  rw [cost, cost]
  omega

theorem remaining_le_cost {largest : Nat} :
    m.remaining pos + size ≤ m.cost largest pos bound size := by
  have hplaces : m.remaining pos * 1 ≤ m.remaining pos * (m.grammar.rules.size + 1) :=
    Nat.mul_le_mul_left _ (by omega)
  have hsizes : (m.remaining pos * (m.grammar.rules.size + 1) + bound) * 1 ≤
      (m.remaining pos * (m.grammar.rules.size + 1) + bound) * (largest + 1) :=
    Nat.mul_le_mul_left _ (by omega)
  rw [cost]
  omega

/-- Fuel for a term is more than there are places ahead. -/
theorem remaining_lt_of_cost_le {largest fuel : Nat} {t : Term}
    (h : m.cost largest pos bound t.size ≤ fuel) : m.remaining pos < fuel := by
  have hle := (remaining_le_cost (m := m)).trans h
  have hpos := t.size_pos
  omega

/-- **What comes after a term.**  If it has read something, the term behind it may call any
rule; if not, it may call what it might before. -/
theorem Ready.after (largest : Nat) (h : m.Ready rank bounded pos bound memo)
    (hrank : m.grammar.IsRanking rank)
    {mayStay : Bool} (hadv : pos.Advances stop mayStay) (hstop : m.IsPlace bounded stop)
    (hkeeps : m.Keeps bounded memo memo') :
    ∃ bound', m.Ready rank bounded stop bound' memo' ∧
      (∀ t, (mayStay = true → m.CallsBelow rank t bound) → m.CallsBelow rank t bound') ∧
      (bounded → ∀ size, m.cost largest stop bound' size ≤ m.cost largest pos bound size) := by
  rcases hadv with hlt | ⟨rfl, hstay⟩
  · refine ⟨m.grammar.rules.size,
      ⟨hstop, fun key hkey => .inl ?_, hkeeps.forward h.forward⟩, ?_, ?_⟩
    · rcases h.clear key ((hkeeps.active key).mp hkey) with hearlier | ⟨hsame, -⟩
      · exact Pos.lt_trans hearlier hlt
      · exact hsame ▸ hlt
    · exact fun t _ r _ id _ hid => hrank.lt id hid
    · exact fun hb size => cost_le_of_lt hb hstop hlt
  · exact ⟨bound, h.keeps hkeeps, fun t ht => ht hstay, fun _ size => Nat.le_refl _⟩

end Machine
end Peg
end Packrat
