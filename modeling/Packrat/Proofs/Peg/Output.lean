/-
# What an evaluation does to a state

An evaluation puts trees behind the output and gives everything else that belongs to the
terms around it back as it was: flags, contexts, lookaheads and depth (`State.Extends`).
Cutting the output back and wrapping its end in a node are read off from that: the trees
above the mark are exactly those that were put there since.
-/

import Packrat.Proofs.Peg.Terminal

namespace Packrat
namespace Peg

/-- What is known of a key after something has been noted of another. -/
theorem Memo.get?_insert (memo : Memo) (k k' : MemoKey) (e : MemoEntry) :
    (memo.insert k e).get? k' = if k = k' then some e else memo.get? k' := by
  simp only [Memo.get?, Memo.insert, Std.HashMap.getElem?_insert, beq_iff_eq]

@[simp] theorem Memo.get?_empty (k : MemoKey) : ({} : Memo).get? k = none := by
  simp [Memo.get?]

/-- Nothing is known of any key in a table without keys. -/
theorem Memo.get?_of_isEmpty {memo : Memo} (h : memo.isEmpty = true) (k : MemoKey) :
    memo.get? k = none := by
  have hempty : memo.entries.isEmpty = true := by
    have hsize : memo.entries.size = 0 := of_decide_eq_true h
    rw [Std.HashMap.isEmpty_eq_size_eq_zero, hsize]
    rfl
  exact Std.HashMap.getElem?_of_isEmpty hempty

namespace State

/-- `s'` has the trees `ns` behind the output of `s`; apart from these, from what was noted
and from what was counted, nothing has changed. -/
structure Extends (s s' : State) (ns : List Match) : Prop where
  out : s'.out.toList = s.out.toList ++ ns
  flags : s'.flags = s.flags
  contexts : s'.contexts = s.contexts
  suppress : s'.suppress = s.suppress
  depth : s'.depth = s.depth

variable {s s' s'' : State} {ns ms : List Match}

theorem Extends.refl (s : State) : s.Extends s [] := ⟨by simp, rfl, rfl, rfl, rfl⟩

theorem Extends.trans (h : s.Extends s' ns) (h' : s'.Extends s'' ms) :
    s.Extends s'' (ns ++ ms) where
  out := by rw [h'.out, h.out, List.append_assoc]
  flags := h'.flags.trans h.flags
  contexts := h'.contexts.trans h.contexts
  suppress := h'.suppress.trans h.suppress
  depth := h'.depth.trans h.depth

theorem Extends.append (s : State) (ns : List Match) : s.Extends (s.append ns) ns :=
  ⟨by simp [State.append], rfl, rfl, rfl, rfl⟩

theorem Notes.extends (h : s.Notes s') : s.Extends s' [] := by
  obtain ⟨failure, rfl⟩ := h
  exact ⟨by simp, rfl, rfl, rfl, rfl⟩

/-- Cutting back to the mark of an earlier state leaves none of the trees put there since. -/
theorem Extends.truncate (h : s.Extends s' ns) : s.Extends (s'.truncate s.out.size) [] where
  out := by simp [State.truncate, h.out]
  flags := h.flags
  contexts := h.contexts
  suppress := h.suppress
  depth := h.depth

/-- The trees above the mark of an earlier state are those put there since. -/
theorem Extends.outputFrom (h : s.Extends s' ns) : s'.outputFrom s.out.size = ns := by
  have hlen : s'.out.size = s.out.size + ns.length := by
    rw [← Array.length_toList, h.out, List.length_append, Array.length_toList]
  simp [State.outputFrom, Array.toList_extract, List.extract, h.out, hlen]

/-- Wrapping from the mark of an earlier state on takes the trees put there since. -/
theorem Extends.wrap (h : s.Extends s' ns) (kind : Kind) :
    s.Extends (s'.wrap s.out.size kind) [.node kind ns] where
  out := by simp [State.wrap, State.push, State.truncate, h.out, h.outputFrom]
  flags := h.flags
  contexts := h.contexts
  suppress := h.suppress
  depth := h.depth

/-- A lookahead that fails quietly gives the count of lookaheads back. -/
theorem Extends.of_suppressed
    (h : { s with suppress := s.suppress + 1 }.Extends s' ns) :
    s.Extends { s' with suppress := s'.suppress - 1 } ns where
  out := h.out
  flags := h.flags
  contexts := h.contexts
  suppress := by simp [h.suppress]
  depth := h.depth

/-- A term under other flags gives the flags back. -/
theorem Extends.of_flags {flags : Flags} (h : { s with flags := flags }.Extends s' ns) :
    s.Extends { s' with flags := s.flags } ns where
  out := h.out
  flags := rfl
  contexts := h.contexts
  suppress := h.suppress
  depth := h.depth

end State
end Peg
end Packrat
