/-
# Brackets, and struct literals in them

Whether a struct literal may stand at a place is told by a flag, and the flag is cleared at many
places.  Each of them is between two brackets, so what is left of the flag in a tree is this:
where it was set, every struct literal in the tree stands in a bracket that the tree itself
opens (`Nests.guarded`).

A tree is looked at as a word of marks: its brackets, and the beginnings of its struct literals.
What a word does to the brackets that are open before it, the last one first, is computed from
the left (`unclosed`).  Of the terms it is asked that they close what they open
(`Grammar.isTame`):

| term | asked |
| --- | --- |
| a token alone | is no bracket |
| `seq` | each closing bracket has its opening one before it, and none is left open |
| flags cleared | a bracket is open, in this term or around it |
| a struct literal | where the flag has been found clear |

That all rules of the language are so is seen by looking at them once (`isTame_grammar`); that
their trees then are is `Parses.nests`.
-/

import Packrat.Proofs.Language.Grammar

namespace Packrat

/-! ## Open brackets -/

/-- The bracket that closes one. -/
def Kind.closedBy? : Kind → Option Kind
  | .lParen => some .rParen
  | .lBracket => some .rBracket
  | .lBrace => some .rBrace
  | _ => none

namespace Language

/-- The brackets that are open behind a token, the last one first, or none if the token closes
one that is not the last. -/
def turn? (opened : List Kind) (kind : Kind) : Option (List Kind) :=
  if kind.isOpening then some (kind :: opened)
  else if kind.isClosing then
    match opened with
    | last :: rest => if last.closedBy? = some kind then some rest else none
    | [] => none
  else some opened

/-- The brackets that are open behind a token.  A bracket that closes another one than the last
leaves none open. -/
def turn (opened : List Kind) (kind : Kind) : List Kind := (turn? opened kind).getD []

/-- The brackets that are open behind some tokens. -/
def unclosed (opened kinds : List Kind) : List Kind := kinds.foldl turn opened

variable {opened opened' outside : List Kind} {kind : Kind}

theorem unclosed_append (opened kinds kinds' : List Kind) :
    unclosed opened (kinds ++ kinds') = unclosed (unclosed opened kinds) kinds' :=
  List.foldl_append

theorem turn_of_not_bracket (h : (kind.isOpening || kind.isClosing) = false) :
    turn opened kind = opened := by
  simp only [Bool.or_eq_false_iff] at h
  simp [turn, turn?, h]

/-- What a token does to the last brackets that are open it does whatever is open before. -/
theorem turn?_append (h : turn? opened kind = some opened') :
    turn? (opened ++ outside) kind = some (opened' ++ outside) := by
  unfold turn? at h ⊢
  by_cases hopen : kind.isOpening = true
  · rw [if_pos hopen] at h ⊢
    cases h
    rfl
  · rw [if_neg hopen] at h ⊢
    by_cases hclose : kind.isClosing = true
    · rw [if_pos hclose] at h ⊢
      rcases opened with _ | ⟨last, rest⟩
      · cases h
      · obtain ⟨hpair, heq⟩ := Option.ite_none_right_eq_some.mp h
        cases heq
        exact if_pos hpair
    · rw [if_neg hclose] at h ⊢
      cases h
      rfl

theorem turn_append (h : turn? opened kind = some opened') :
    turn (opened ++ outside) kind = opened' ++ outside := by
  rw [turn, turn?_append h, Option.getD_some]

end Language

/-! ## Words of marks -/

namespace Peg

open Packrat.Language

/-- What is looked at in a tree: a bracket, or the beginning of a struct literal. -/
inductive Mark where
  | bracket (kind : Kind)
  | record

/-- The mark of a token. -/
def Mark.ofToken (kind : Kind) : List Mark :=
  if kind.isOpening || kind.isClosing then [.bracket kind] else []

/-- The mark of the beginning of a node. -/
def Mark.ofNode (kind : Kind) : List Mark := if kind = .recordExpr then [.record] else []

/-- The brackets that are open behind a mark. -/
def Mark.turn (opened : List Kind) : Mark → List Kind
  | bracket kind => Language.turn opened kind
  | record => opened

/-- The brackets that are open behind some marks. -/
def Mark.openAfter (opened : List Kind) (word : List Mark) : List Kind := word.foldl turn opened

/-- Wherever a struct literal begins a bracket is open. -/
def Mark.Guarded : List Kind → List Mark → Prop
  | _, [] => True
  | opened, mark :: word =>
    (mark = record → opened ≠ []) ∧ Guarded (mark.turn opened) word

mutual

/-- The marks of a tree, in order. -/
def Match.marks : Match → List Mark
  | .token _ kind _ => Mark.ofToken kind
  | .node kind children => Mark.ofNode kind ++ marksAll children

/-- The marks of some trees. -/
def Match.marksAll : List Match → List Mark
  | [] => []
  | n :: ns => n.marks ++ marksAll ns

end

variable {opened opened' outside : List Kind} {kind : Kind} {word word' : List Mark}
  {ns ms : List Match}

theorem Match.marksAll_append (ns ms : List Match) :
    marksAll (ns ++ ms) = marksAll ns ++ marksAll ms := by
  induction ns with
  | nil => rfl
  | cons n ns ih => simp [marksAll, ih]

theorem Match.marksAll_singleton (n : Match) : marksAll [n] = n.marks := by simp [marksAll]

namespace Mark

theorem openAfter_append (opened : List Kind) (word word' : List Mark) :
    openAfter opened (word ++ word') = openAfter (openAfter opened word) word' :=
  List.foldl_append

theorem openAfter_ofToken (opened : List Kind) (kind : Kind) :
    openAfter opened (ofToken kind) = Language.turn opened kind := by
  unfold ofToken
  split
  · rfl
  · next h => rw [turn_of_not_bracket (by simpa using h), openAfter, List.foldl_nil]

theorem openAfter_ofNode (opened : List Kind) (kind : Kind) :
    openAfter opened (ofNode kind) = opened := by
  unfold ofNode
  split <;> rfl

theorem guarded_append : ∀ {opened : List Kind} {word : List Mark},
    Guarded opened (word ++ word') ↔
      Guarded opened word ∧ Guarded (openAfter opened word) word' := by
  intro opened word
  induction word generalizing opened with
  | nil => simp [Guarded, openAfter]
  | cons mark word ih =>
    rw [List.cons_append, Guarded, Guarded, ih, and_assoc]
    rfl

theorem guarded_ofToken : Guarded opened (ofToken kind) := by
  unfold ofToken
  split <;> simp [Guarded]

theorem guarded_ofNode : Guarded opened (ofNode kind) ↔ (kind = .recordExpr → opened ≠ []) := by
  unfold ofNode
  split <;> simp_all [Guarded]

/-- A bracket is open where a struct literal begins. -/
theorem Guarded.openAfter_ne_nil (h : Guarded opened (word ++ record :: word')) :
    openAfter opened word ≠ [] := (guarded_append.mp h).2.1 rfl

end Mark

/-! ## Trees that nest -/

open Mark

/-- The marks close `opened` and what they open, and nothing around it.  If the flag is set, or
something is open around it, a bracket is open where a struct literal begins; `inside` tells that
something is. -/
structure Nests (flags : Flags) (inside : Bool) (opened : List Kind) (word : List Mark) : Prop where
  balanced : ∀ outside, openAfter (opened ++ outside) word = outside
  guarded : ∀ outside, (inside = true → outside ≠ []) → (flags.noStruct = false → outside ≠ []) →
    Guarded (opened ++ outside) word

namespace Nests

variable {f f' : Flags} {inside : Bool}

theorem nil : Nests f inside [] [] := ⟨fun _ => rfl, fun _ _ _ => trivial⟩

/-- What nests under other flags and in fewer brackets.  The flag may be cleared where a bracket
is open around it. -/
theorem weaken {inside' : Bool} (hinside : inside' = true → inside = true)
    (hclear : f'.noStruct = false → f.noStruct = false ∨ inside = true)
    (h : Nests f' inside' [] word) : Nests f inside [] word := by
  refine ⟨h.balanced, fun outside hout hflag => ?_⟩
  refine h.guarded outside (fun hin => hout (hinside hin)) fun hclear' => ?_
  rcases hclear hclear' with hset | hin
  · exact hflag hset
  · exact hout hin

/-- Some trees that close what they open, before others that also close `opened`. -/
theorem append (h : Nests f (inside || !opened.isEmpty) [] word)
    (h' : Nests f inside opened word') : Nests f inside opened (word ++ word') := by
  constructor
  · intro outside
    rw [openAfter_append, ← List.nil_append (opened ++ outside), h.balanced]
    exact h'.balanced outside
  · intro outside hinside hflag
    rw [guarded_append, ← List.nil_append (opened ++ outside), h.balanced]
    refine ⟨h.guarded _ (fun hor => ?_) (fun hclear => ?_), h'.guarded outside hinside hflag⟩
    · rcases Bool.or_eq_true_iff.mp hor with hin | hopened
      · exact fun hnil => hinside hin (List.append_eq_nil_iff.mp hnil).2
      · exact fun hnil => by simp [(List.append_eq_nil_iff.mp hnil).1] at hopened
    · exact fun hnil => hflag hclear (List.append_eq_nil_iff.mp hnil).2

/-- Some trees that close what they open, before others, in the same brackets. -/
theorem beside (h : Nests f inside [] word) (h' : Nests f inside opened word') :
    Nests f inside opened (word ++ word') :=
  .append (h.weaken (fun hin => by rw [hin, Bool.true_or]) .inl) h'

/-- A token that turns what is open, before trees that close that. -/
theorem token (hturn : turn? opened kind = some opened') (h : Nests f inside opened' word) :
    Nests f inside opened (ofToken kind ++ word) := by
  constructor
  · intro outside
    rw [openAfter_append, openAfter_ofToken, turn_append hturn, h.balanced]
  · intro outside hinside hflag
    rw [guarded_append, openAfter_ofToken, turn_append hturn]
    exact ⟨guarded_ofToken, h.guarded outside hinside hflag⟩

/-- A node over trees that nest.  A struct literal needs the flag to be clear. -/
theorem node (hkind : kind = .recordExpr → f.noStruct = false) (h : Nests f inside [] word) :
    Nests f inside [] (ofNode kind ++ word) := by
  constructor
  · intro outside
    rw [openAfter_append, openAfter_ofNode]
    exact h.balanced outside
  · intro outside hinside hflag
    rw [guarded_append, openAfter_ofNode]
    exact ⟨guarded_ofNode.mpr fun hrecord => hflag (hkind hrecord),
      h.guarded outside hinside hflag⟩

/-- A node over what there is and the trees of another node. -/
theorem round (h : Nests f inside [] word) (h' : Nests f inside [] (ofNode kind ++ word')) :
    Nests f inside [] (ofNode kind ++ (word ++ word')) := by
  constructor
  · intro outside
    have hbehind := h'.balanced outside
    rw [openAfter_append, openAfter_ofNode] at hbehind
    rw [openAfter_append, openAfter_append, openAfter_ofNode, h.balanced]
    exact hbehind
  · intro outside hinside hflag
    have hbehind := h'.guarded outside hinside hflag
    rw [guarded_append, openAfter_ofNode] at hbehind
    rw [guarded_append, guarded_append, openAfter_ofNode, h.balanced]
    exact ⟨hbehind.1, h.guarded outside hinside hflag, hbehind.2⟩

end Nests

/-! ## Terms that nest -/

/-- Terms one after the other. -/
def Term.isSeq : Term → Bool
  | .seq _ => true
  | _ => false

theorem Term.isSeq_of_isTerminal {t : Term} (ht : t.isTerminal = true) : t.isSeq = false := by
  cases t with
  | seq => cases ht
  | _ => rfl

namespace Grammar

variable (g : Grammar)

/-- The node of the rule is a struct literal. -/
def makesRecord (r : RuleRef) : Bool :=
  (g.resolve? r).any fun id => (g.rules[id]?).any (·.kind = some .recordExpr)

mutual

/-- The term closes the brackets that it opens, and clears the flag in brackets only.  The flag
has been found clear if `clear`; a bracket is open around the term if `inside`. -/
def isTame (clear inside : Bool) : Term → Bool
  | .token kind | .split kind => turn? [] kind = some []
  | .word _ | .any | .ended | .ahead _ | .notAhead _ => true
  | .seq items => isTameSeq clear inside [] items
  | .choice alternatives => isTameAll clear inside alternatives
  | .opt body | .star body | .plus body => isTame clear inside body
  | .ref r => clear || !g.makesRecord r
  | .node kind body => (clear || kind != .recordExpr) && isTame clear inside body
  | .scoped set unset body =>
    if unset.noStruct then inside && isTame false inside body
    else isTame (clear && !set.noStruct) inside body
  | .gate flags whenSet body => isTame (clear || flags.noStruct && !whenSet) inside body
  | .fold operand tails _ => isTame clear inside operand && isTameTails clear inside tails

/-- Terms in sequence, of which those before have left some brackets open. -/
def isTameSeq (clear inside : Bool) : List Kind → List Term → Bool
  | opened, [] => opened.isEmpty
  | opened, .token kind :: ts =>
    (turn? opened kind).any fun opened => isTameSeq clear inside opened ts
  | opened, t :: ts =>
    isTame clear (inside || !opened.isEmpty) t && isTameSeq clear inside opened ts

/-- Alternatives that all are tame. -/
def isTameAll (clear inside : Bool) : List Term → Bool
  | [] => true
  | t :: ts => isTame clear inside t && isTameAll clear inside ts

/-- Tails that all are tame, under their nodes. -/
def isTameTails (clear inside : Bool) : List (Kind × Term) → Bool
  | [] => true
  | (kind, t) :: tails =>
    (clear || kind != .recordExpr) && isTame clear inside t && isTameTails clear inside tails

end

/-- A term that also closes some brackets, if it is a sequence. -/
def isTameFrom (clear inside : Bool) (opened : List Kind) : Term → Bool
  | .seq items => g.isTameSeq clear inside opened items
  | t => opened.isEmpty && g.isTame clear inside t

/-- The bodies of all rules are tame. -/
def hasTameRules : Bool := g.rules.toList.all fun rule => g.isTame false false rule.body

variable {g} {clear inside : Bool} {opened : List Kind} {t : Term} {ts : List Term}

theorem isTameFrom_nil (t : Term) : g.isTameFrom clear inside [] t = g.isTame clear inside t := by
  cases t <;> simp [isTameFrom, isTame]

/-- In a sequence a token turns what is open; other terms leave it. -/
theorem isTameSeq_cons (h : g.isTameSeq clear inside opened (t :: ts) = true) :
    (∃ kind opened', t = .token kind ∧ turn? opened kind = some opened' ∧
      g.isTameSeq clear inside opened' ts = true) ∨
    g.isTame clear (inside || !opened.isEmpty) t = true ∧
      g.isTameSeq clear inside opened ts = true := by
  unfold isTameSeq at h
  split at h
  · next heq => cases heq
  · next heq =>
    cases heq
    obtain ⟨opened', hturn, hrest⟩ := (Option.any_eq_true ..).mp h
    exact .inl ⟨_, opened', rfl, hturn, hrest⟩
  · next heq =>
    cases heq
    exact .inr (Bool.and_eq_true_iff.mp h)

theorem isTame_ofTails (tails : List (Kind × Term)) :
    g.isTame clear inside (.ofTails tails) = g.isTameTails clear inside tails := by
  simp only [Term.ofTails, isTame]
  induction tails with
  | nil => rfl
  | cons tail tails ih => rw [List.map_cons, isTameAll, isTameTails, ih, isTame]

/-- What is asked of a term that is no sequence does not depend on what is open before. -/
theorem isTame_of_isTameFrom (h : g.isTameFrom clear inside opened t = true)
    (hseq : t.isSeq = false) : opened = [] ∧ g.isTame clear inside t = true := by
  unfold isTameFrom at h
  split at h
  · cases hseq
  · obtain ⟨hopened, htame⟩ := Bool.and_eq_true_iff.mp h
    exact ⟨List.isEmpty_iff.mp hopened, htame⟩

theorem isTame_body (hg : g.hasTameRules = true) {id : Nat} {rule : Rule}
    (hrule : g.rules[id]? = some rule) : g.isTame false false rule.body = true :=
  List.all_eq_true.mp hg rule (Array.mem_toList_iff.mpr (Array.mem_of_getElem? hrule))

end Grammar

/-! ## All answers -/

section

variable {m : Machine} {f : Flags} {goal : Goal} {pos stop : Pos} {a : Answer} {inside : Bool}

/-- A token that is no bracket. -/
theorem nests_leaf {index : Nat} {part : Option (UInt8 × UInt8)}
    (hturn : turn? [] kind = some []) :
    Nests f inside [] (Match.marksAll [.token index kind part]) := by
  rw [Match.marksAll_singleton, Match.marks, ← List.append_nil (ofToken kind)]
  exact .token hturn .nil

/-- A terminal that is tame reads no bracket. -/
theorem nests_read? {t : Term} {clear : Bool} (htame : m.grammar.isTame clear inside t = true)
    (h : m.read? pos t = some (ns, stop)) : Nests f inside [] (Match.marksAll ns) := by
  rcases Machine.read?_cases h with ⟨rfl, rfl⟩ | ⟨index, kind, part, rfl, rfl | rfl | hword | hany⟩
  · exact .nil
  · exact nests_leaf (of_decide_eq_true htame)
  · exact nests_leaf (of_decide_eq_true htame)
  · obtain ⟨-, rfl⟩ := hword
    exact nests_leaf rfl
  · obtain ⟨-, hopening, hclosing⟩ := hany
    exact nests_leaf (by simp [turn?, hopening, hclosing])

/-- What an answer to a goal nests.  The rounds of a fold go on from trees that nest. -/
def GoalNests (g : Grammar) (f : Flags) (a : Answer) : Goal → Prop
  | .term t => ∀ clear inside opened, g.isTameFrom clear inside opened t = true →
      (clear = true → f.noStruct = false) → ∀ ns stop, a = some (ns, stop) →
        Nests f inside opened (Match.marksAll ns)
  | .rounds tails _ done => ∀ clear inside, g.isTameTails clear inside tails = true →
      (clear = true → f.noStruct = false) → Nests f inside [] (Match.marksAll done) →
        ∀ ns stop, a = some (ns, stop) → Nests f inside [] (Match.marksAll ns)

/-- What holds of terms that are tame holds of terms that close nothing before them. -/
theorem GoalNests.term {g : Grammar} {t : Term} (hseq : t.isSeq = false)
    (h : ∀ clear inside, g.isTame clear inside t = true → (clear = true → f.noStruct = false) →
      ∀ ns stop, a = some (ns, stop) → Nests f inside [] (Match.marksAll ns)) :
    GoalNests g f a (.term t) := by
  intro clear inside opened htame
  obtain ⟨rfl, hterm⟩ := Grammar.isTame_of_isTameFrom htame hseq
  exact h clear inside hterm

theorem GoalNests.tame {g : Grammar} {t : Term} (h : GoalNests g f a (.term t)) {clear : Bool}
    (htame : g.isTame clear inside t = true) (hclear : clear = true → f.noStruct = false)
    (heq : a = some (ns, stop)) : Nests f inside [] (Match.marksAll ns) :=
  h clear inside [] ((g.isTameFrom_nil t).trans htame) hclear ns stop heq

end

end Peg

namespace Language

open Peg

/-- **All rules of the language close the brackets that they open**, and clear the flag in
brackets only. -/
theorem hasTameRules_grammar {g : Grammar} (hg : grammar = .ok g) : g.hasTameRules = true :=
  of_coded (by decide +kernel) hg

end Language

namespace Peg.Parses

open Mark Grammar

variable {m : Machine} {f : Flags} {goal : Goal} {pos : Pos} {a : Answer}

theorem token_eq {kind : Kind} {ns : List Match} {stop : Pos}
    (h : Parses m f (.term (.token kind)) pos (some (ns, stop))) :
    ∃ index part, ns = [.token index kind part] := by
  generalize ha : some (ns, stop) = a at h
  cases h
  rcases Machine.read?_cases ha.symm with
    ⟨heq, -⟩ | ⟨index, kind', part, rfl, heq | heq | heq | heq⟩
  · cases heq
  · cases heq
    exact ⟨index, part, rfl⟩
  · cases heq
  · obtain ⟨⟨text, heq⟩, -⟩ := heq
    cases heq
  · cases heq.1

/-- **Answers nest** if all rules are tame. -/
theorem nests (hg : m.grammar.hasTameRules = true) (h : Parses m f goal pos a) :
    GoalNests m.grammar f a goal := by
  induction h with
  | @terminal f t pos ht =>
    refine .term (Term.isSeq_of_isTerminal ht) ?_
    exact fun clear inside htame _ ns stop hread => nests_read? htame hread
  | seq_nil =>
    rintro clear inside opened htame - ns stop ⟨⟩
    obtain rfl := List.isEmpty_iff.mp htame
    exact .nil
  | seq_fail => rintro clear inside opened - - ns stop ⟨⟩
  | @seq_cons f t ts pos ns mid a hfirst _ ih₁ ih₂ =>
    intro clear inside opened htame hclear ns' stop heq
    obtain ⟨⟨ms, stop'⟩, rfl, hr⟩ := Option.map_eq_some_iff.mp heq
    cases hr
    rw [Match.marksAll_append]
    rcases isTameSeq_cons htame with ⟨kind, opened', rfl, hturn, hrest⟩ | ⟨hterm, hrest⟩
    · have hms := ih₂ clear inside opened' hrest hclear ms stop' rfl
      obtain ⟨index, part, rfl⟩ := hfirst.token_eq
      rw [Match.marksAll_singleton]
      exact hms.token hturn
    · exact (ih₁.tame hterm hclear rfl).append (ih₂ clear inside opened hrest hclear ms stop' rfl)
  | choice_nil => exact .term rfl fun clear inside _ _ ns stop heq => by cases heq
  | choice_here _ ih =>
    refine .term rfl fun clear inside htame hclear ns stop heq => ?_
    exact ih.tame (Bool.and_eq_true_iff.mp htame).1 hclear heq
  | choice_next _ _ _ ih =>
    refine .term rfl fun clear inside htame hclear ns stop heq => ?_
    exact ih.tame (t := .choice _) (Bool.and_eq_true_iff.mp htame).2 hclear heq
  | @opt f t pos a _ ih =>
    refine .term rfl fun clear inside htame hclear ns stop heq => ?_
    cases a with
    | none =>
      cases heq
      exact .nil
    | some r => exact ih.tame htame hclear heq
  | star_fail =>
    refine .term rfl fun clear inside _ _ ns stop heq => ?_
    cases heq
    exact .nil
  | star_empty =>
    refine .term rfl fun clear inside _ _ ns stop heq => ?_
    cases heq
    exact .nil
  | star_more _ _ _ ih₁ ih₂ =>
    refine .term rfl fun clear inside htame hclear ns stop heq => ?_
    obtain ⟨⟨ms, stop'⟩, rfl, hr⟩ := Option.map_eq_some_iff.mp heq
    cases hr
    rw [Match.marksAll_append]
    exact .beside (ih₁.tame htame hclear rfl) (ih₂.tame htame hclear rfl)
  | plus_fail => exact .term rfl fun clear inside _ _ ns stop heq => by cases heq
  | plus_more _ _ ih₁ ih₂ =>
    refine .term rfl fun clear inside htame hclear ns stop heq => ?_
    obtain ⟨⟨ms, stop'⟩, rfl, hr⟩ := Option.map_eq_some_iff.mp heq
    cases hr
    rw [Match.marksAll_append]
    exact .beside (ih₁.tame htame hclear rfl)
      (ih₂.tame (t := .star _) htame hclear rfl)
  | ahead =>
    refine .term rfl fun clear inside _ _ ns stop heq => ?_
    obtain ⟨r, -, hr⟩ := Option.map_eq_some_iff.mp heq
    cases hr
    exact .nil
  | notAhead =>
    refine .term rfl fun clear inside _ _ ns stop heq => ?_
    split at heq
    · cases heq
    · cases heq
      exact .nil
  | ref_none => exact .term rfl fun clear inside _ _ ns stop heq => by cases heq
  | @ref_rule f r id rule pos a hid hrule _ ih =>
    refine .term rfl fun clear inside htame hclear ns stop heq => ?_
    obtain ⟨⟨ms, stop'⟩, rfl, hr⟩ := Option.map_eq_some_iff.mp heq
    cases hr
    have hbody : Nests f inside [] (Match.marksAll ms) :=
      (ih.tame (isTame_body hg hrule) Bool.noConfusion rfl).weaken Bool.noConfusion .inl
    cases hkind : rule.kind with
    | none =>
      rw [show rule.close ms = ms by rw [Rule.close, hkind]]
      exact hbody
    | some kind =>
      rw [show rule.close ms = [.node kind ms] by rw [Rule.close, hkind],
        Match.marksAll_singleton, Match.marks]
      refine hbody.node fun hrecord => hclear ?_
      simpa [isTame, makesRecord, hid, hrule, hkind, hrecord] using htame
  | node _ ih =>
    refine .term rfl fun clear inside htame hclear ns stop heq => ?_
    obtain ⟨⟨ms, stop'⟩, rfl, hr⟩ := Option.map_eq_some_iff.mp heq
    cases hr
    obtain ⟨hkind, hbody⟩ := Bool.and_eq_true_iff.mp htame
    rw [Match.marksAll_singleton, Match.marks]
    refine (ih.tame hbody hclear rfl).node fun hrecord => hclear ?_
    simpa [hrecord] using hkind
  | @scope f set unset t pos a _ ih =>
    refine .term rfl fun clear inside htame hclear ns stop heq => ?_
    rw [isTame] at htame
    split at htame
    · -- the flag is cleared, but only in brackets that the sequence around has opened
      obtain ⟨hinside, hbody⟩ := Bool.and_eq_true_iff.mp htame
      exact (ih.tame hbody Bool.noConfusion heq).weaken id fun _ => .inr hinside
    · next hkept =>
      refine (ih.tame htame (fun hset => ?_) heq).weaken id fun hflag => .inl ?_
      · obtain ⟨hwas, hset⟩ := Bool.and_eq_true_iff.mp hset
        have hunset : set.noStruct = false := by simpa using hset
        simp [Flags.diff, Flags.union, hclear hwas, hunset]
      · simp only [Flags.diff, Flags.union, hkept] at hflag
        simp_all
  | @gate_open f flags whenSet t pos a hgate _ ih =>
    refine .term rfl fun clear inside htame hclear ns stop heq => ?_
    refine ih.tame htame (fun hor => ?_) heq
    rcases Bool.or_eq_true_iff.mp hor with hwas | hasked
    · exact hclear hwas
    · obtain ⟨hflags, hunset⟩ := Bool.and_eq_true_iff.mp hasked
      have hclosed : f.intersects flags = false := hgate.trans (by simpa using hunset)
      simpa [Flags.intersects, hflags] using (Bool.or_eq_false_iff.mp hclosed).1
  | gate_shut => exact .term rfl fun clear inside _ _ ns stop heq => by cases heq
  | fold_fail => exact .term rfl fun clear inside _ _ ns stop heq => by cases heq
  | fold_rounds _ _ ih₁ ih₂ =>
    refine .term rfl fun clear inside htame hclear ns stop heq => ?_
    obtain ⟨hoperand, htails⟩ := Bool.and_eq_true_iff.mp htame
    exact ih₂ clear inside htails hclear (ih₁.tame hoperand hclear rfl) ns stop heq
  | rounds_spent =>
    rintro clear inside - - hdone ns stop ⟨⟩
    exact hdone
  | rounds_end =>
    rintro clear inside - - hdone ns stop ⟨⟩
    exact hdone
  | @rounds_more f tails left pos ns kind ms mid a _ _ _ ih₁ ih₂ =>
    intro clear inside htails hclear hdone ns' stop heq
    -- the node of the tail begins before the trees that it takes in
    have hround := ih₁.tame ((isTame_ofTails tails).trans htails) hclear rfl
    rw [Match.marksAll_singleton, Match.marks] at hround
    refine ih₂ clear inside htails hclear ?_ ns' stop heq
    rw [Match.marksAll_singleton, Match.marks, Match.marksAll_append]
    exact hdone.round hround

end Peg.Parses
end Packrat
