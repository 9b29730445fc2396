/-
# Reused tables do not show

A file is parsed with a table that earlier files have left, and leaves it to later ones.  A table
that is not empty is emptied first, and what is then left of its past, the number of times that this
was done, has no part in a parse.  So the result for a file is that of the file alone, whatever the
table (`Source.result_parse`), and the same goes for files that are parsed one after the other with
one table, with the tables of a pool, or by workers that share a pool and take turns in any order
(`Source.tables_do_not_show`).

| use of a table | emptied |
| --- | --- |
| a buffer is not decoded, or not cut into tokens | no; the table is left alone |
| a token stream is parsed | first, unless the table is empty |
| it is given back to a pool | yes |
-/

import Packrat.Batch
import Packrat.Proofs.Parse.Ends
import Packrat.Proofs.Peg.Tables

namespace Packrat

open Peg

namespace Parse

variable {text : List Char} {s : TokenStream} {root : Term}

/-- What two runs come to that end in the same way. -/
theorem answer_of_same {r r' : Machine.Run} {generation generation' : Nat}
    (hresult : r'.result = r.result)
    (hstate : State.SameButTrees generation generation' r.state r'.state) :
    answer s r' = answer s r := by
  have hsteps : r'.state.steps = r.state.steps := by
    rw [hstate.same]
    rfl
  unfold answer
  rw [hresult, hsteps, hstate.memo.size]

/-- **The past of a table does not show** in the result of a run, and the run empties it once if it
is not empty. -/
theorem run_of_table (hs : TokenStream.ofText text = .ok s)
    (hroot : ∀ g, ∀ t ∈ root.parts, Language.isPlain g t = true) (options : ParseOptions)
    (memo : Memo) : (run root options s memo).1 = (run root options s {}).1 ∧
      (run root options s memo).2.generation =
        memo.generation + if memo.isEmpty then 0 else 1 := by
  obtain ⟨g, r, hg, hrun, hends⟩ := exists_run_emptied hs hroot options memo
  obtain ⟨g', r', hg', hrun', hends'⟩ := exists_run_emptied hs hroot options {}
  cases hg.symm.trans hg'
  have htrue : ∀ memo : Memo, (machine g s options).MemoTrue (emptied memo) :=
    fun memo key e hget => by simp [get?_emptied] at hget
  obtain ⟨hresult, hstate⟩ := Machine.runWith_of_saysSame
    (Memo.saysSame_of_isEmpty (isEmpty_emptied {}) (isEmpty_emptied memo))
    (htrue {}) (htrue memo) hrun' hrun
  rw [hends, hends']
  refine ⟨answer_of_same hresult hstate, ?_⟩
  rw [hstate.right]
  unfold emptied
  split <;> rfl

theorem ofStream_of_table (hs : TokenStream.ofText text = .ok s) (options : ParseOptions)
    (memo : Memo) : (ofStream options s memo).1 = (ofStream options s {}).1 ∧
      (ofStream options s memo).2.generation =
        memo.generation + if memo.isEmpty then 0 else 1 := by
  rw [ofStream, ofStream]
  exact run_of_table hs (fun g => Language.isPlain_rule _) options memo

end Parse

namespace Source

/-- The buffer is decoded and cut into tokens. -/
def isReadable (s : Source) : Bool := (Parse.tokenize s.encoding s.bytes).isOk

/-- What becomes of a file that is parsed on its own. -/
def alone (options : ParseOptions) (s : Source) : ParsedFile :=
  ⟨s.name, Parse.ofBytes s.encoding s.bytes options⟩

variable (options : ParseOptions) (memo : Memo) (s : Source)

/-- A buffer that cannot be read leaves the table alone; another one has the tokens of a text. -/
theorem parse_cases :
    (∃ e, s.isReadable = false ∧ s.parse options memo = (.error e, memo) ∧
      Parse.ofBytes s.encoding s.bytes options = .error e) ∨
    ∃ text stream, s.isReadable = true ∧ TokenStream.ofText text = .ok stream ∧
      s.parse options memo = Parse.ofStream options stream memo ∧
      Parse.ofBytes s.encoding s.bytes options = (Parse.ofStream options stream {}).1 := by
  unfold isReadable parse Parse.tokenize Parse.ofBytes Parse.ofText
  cases s.encoding.decode s.bytes with
  | error e => exact .inl ⟨.encoding e, rfl, rfl, rfl⟩
  | ok text =>
    cases hstream : TokenStream.ofText text with
    | error e =>
      refine .inl ⟨.lex e, ?_⟩
      simp [Except.mapError, bind, Except.bind, Except.isOk, Except.toBool, hstream]
    | ok stream =>
      have hlast : ∀ last : TokenStream → Except Error Parse,
          (Except.mapError Error.lex (TokenStream.ofText text) >>= last) = last stream := by
        intro last
        rw [hstream]
        rfl
      refine .inr ⟨text, stream, ?_, hstream, ?_, hlast _⟩ <;>
        simp [Except.mapError, bind, Except.bind, Except.isOk, Except.toBool, hstream]

/-- **Whatever table a file is parsed with, the result is that of the file alone.** -/
theorem result_parse : (s.parse options memo).1 = (s.alone options).result := by
  show (s.parse options memo).1 = Parse.ofBytes s.encoding s.bytes options
  rcases parse_cases options memo s with ⟨e, -, hparse, hof⟩ | ⟨text, stream, -, hs, hparse, hof⟩
  · rw [hparse, hof]
  · rw [hparse, hof, (Parse.ofStream_of_table hs options memo).1]

theorem table_parse_of_unreadable (h : s.isReadable = false) : (s.parse options memo).2 = memo := by
  rcases parse_cases options memo s with ⟨e, -, hparse, -⟩ | ⟨text, stream, hread, -, -, -⟩
  · rw [hparse]
  · rw [h] at hread
    cases hread

/-- A file empties the table that it is parsed with once, if it can be read and the table is not
empty. -/
theorem generation_parse : (s.parse options memo).2.generation =
    memo.generation + if s.isReadable && !memo.isEmpty then 1 else 0 := by
  rcases parse_cases options memo s with
    ⟨e, hread, hparse, -⟩ | ⟨text, stream, hread, hs, hparse, -⟩
  · rw [hparse, hread]
    rfl
  · rw [hparse, hread]
    rw [(Parse.ofStream_of_table hs options memo).2]
    cases memo.isEmpty <;> rfl

end Source

/-! ## Histories of a table -/

/-- What is done with a table: a file is parsed with it, or it is given back to a pool. -/
inductive TableUse where
  | parse (s : Source)
  | giveBack

namespace TableUse

/-- The table after a use. -/
def apply (options : ParseOptions) (memo : Memo) : TableUse → Memo
  | parse s => (s.parse options memo).2
  | giveBack => memo.reset

/-- The use empties the table. -/
def empties (memo : Memo) : TableUse → Bool
  | parse s => s.isReadable && !memo.isEmpty
  | giveBack => true

/-- The table after some uses. -/
def after (options : ParseOptions) (memo : Memo) (uses : List TableUse) : Memo :=
  uses.foldl (apply options) memo

variable (options : ParseOptions)

@[simp] theorem after_nil (memo : Memo) : after options memo [] = memo := rfl

@[simp] theorem after_cons (memo : Memo) (use : TableUse) (uses : List TableUse) :
    after options memo (use :: uses) = after options (use.apply options memo) uses := rfl

theorem after_append (memo : Memo) (uses uses' : List TableUse) :
    after options memo (uses ++ uses') = after options (after options memo uses) uses' :=
  List.foldl_append

/-- One use counts when it empties the table. -/
theorem generation_apply (memo : Memo) (use : TableUse) : (use.apply options memo).generation =
    memo.generation + if use.empties memo then 1 else 0 := by
  cases use with
  | parse s => exact Source.generation_parse options memo s
  | giveBack => rfl

/-- How many of some uses empty the table. -/
def countEmptied (memo : Memo) (uses : List TableUse) : Nat :=
  (List.range uses.length).countP fun k =>
    uses[k]?.any fun use => use.empties (after options memo (uses.take k))

@[simp] theorem countEmptied_nil (memo : Memo) : countEmptied options memo [] = 0 := rfl

/-- The later uses meet the table that the first one leaves. -/
theorem countEmptied_cons (memo : Memo) (use : TableUse) (uses : List TableUse) :
    countEmptied options memo (use :: uses) =
      (if use.empties memo then 1 else 0) + countEmptied options (use.apply options memo) uses := by
  simp only [countEmptied, List.length_cons, List.range_succ_eq_map, List.countP_cons,
    List.countP_map, Function.comp_def, List.getElem?_cons_zero, List.getElem?_cons_succ,
    List.take_zero, List.take_succ_cons, after_nil, after_cons, Option.any_some]
  exact Nat.add_comm ..

/-- **A table counts the uses that emptied it.** -/
theorem generation_after (uses : List TableUse) : ∀ memo : Memo,
    (after options memo uses).generation = memo.generation + countEmptied options memo uses := by
  induction uses with
  | nil => exact fun memo => rfl
  | cons use uses ih =>
    intro memo
    rw [after_cons, ih, generation_apply, countEmptied_cons, Nat.add_assoc]

end TableUse

/-! ## Workers that share a pool -/

/-- How far a worker is with a file. -/
inductive FileStage where
  | waiting
  | holding (memo : Memo)
  | parsed (result : Except Error Parse) (memo : Memo)
  | done (result : Except Error Parse)

/-- Files being parsed by workers that share a pool. -/
structure Batch where
  pool : MemoPool
  stages : List FileStage

namespace Batch

/-- Nothing has been done. -/
def start (pool : MemoPool) (files : List Source) : Batch :=
  ⟨pool, files.map fun _ => .waiting⟩

/-- One worker does one thing for its file: it takes a table from the pool, parses the file with it,
or gives the table back. -/
inductive Turn (options : ParseOptions) (files : List Source) : Batch → Batch → Prop
  | acquire {pool : MemoPool} {stages : List FileStage} {i : Nat}
      (hstage : stages[i]? = some .waiting) :
      Turn options files ⟨pool, stages⟩
        ⟨pool.acquire.2, stages.set i (.holding pool.acquire.1)⟩
  | parse {pool : MemoPool} {stages : List FileStage} {i : Nat} {memo : Memo} {s : Source}
      (hstage : stages[i]? = some (.holding memo)) (hfile : files[i]? = some s) :
      Turn options files ⟨pool, stages⟩
        ⟨pool, stages.set i (.parsed (s.parse options memo).1 (s.parse options memo).2)⟩
  | release {pool : MemoPool} {stages : List FileStage} {i : Nat} {memo : Memo}
      {result : Except Error Parse} (hstage : stages[i]? = some (.parsed result memo)) :
      Turn options files ⟨pool, stages⟩ ⟨pool.release memo, stages.set i (.done result)⟩

/-- Turns of any number of workers in any order. -/
def Runs (options : ParseOptions) (files : List Source) : Batch → Batch → Prop :=
  Relation.ReflTransGen (Turn options files)

end Batch

/-- The table is what some uses have made of a table of the pool, or of a new one. -/
def HasHistory (options : ParseOptions) (pool : MemoPool) (memo : Memo) : Prop :=
  ∃ first uses, (first = {} ∨ first ∈ pool.tables) ∧ memo = TableUse.after options first uses

theorem HasHistory.use {options : ParseOptions} {pool : MemoPool} {memo : Memo}
    (h : HasHistory options pool memo) (use : TableUse) :
    HasHistory options pool (use.apply options memo) := by
  obtain ⟨first, uses, hfirst, rfl⟩ := h
  refine ⟨first, uses ++ [use], hfirst, ?_⟩
  rw [TableUse.after_append]
  rfl

/-- The tables that a pool hands out and keeps have histories, if all of its tables do. -/
theorem HasHistory.acquire {options : ParseOptions} {first pool : MemoPool}
    (h : ∀ memo ∈ pool.tables, HasHistory options first memo) :
    HasHistory options first pool.acquire.1 ∧
      ∀ memo ∈ pool.acquire.2.tables, HasHistory options first memo := by
  unfold MemoPool.acquire
  split
  · exact ⟨⟨{}, [], .inl rfl, rfl⟩, h⟩
  · next memo memos heq =>
    rw [heq] at h
    exact ⟨h memo List.mem_cons_self, fun memo' hmem => h memo' (List.mem_cons_of_mem _ hmem)⟩

/-- What a worker has of file number `i`: its result is that of the file alone, and its table has a
history. -/
def FileStage.IsRight (options : ParseOptions) (files : List Source) (pool : MemoPool) (i : Nat) :
    FileStage → Prop
  | waiting => True
  | holding memo => HasHistory options pool memo
  | parsed result memo =>
    files[i]?.map (fun s => (s.alone options).result) = some result ∧ HasHistory options pool memo
  | done result => files[i]?.map (fun s => (s.alone options).result) = some result

namespace Batch

/-- All results are those of files alone, and all tables have histories that begin in `pool`. -/
structure IsRight (options : ParseOptions) (files : List Source) (pool : MemoPool) (b : Batch) :
    Prop where
  tables : ∀ memo ∈ b.pool.tables, HasHistory options pool memo
  stages : ∀ (i : Nat) (stage : FileStage), b.stages[i]? = some stage →
    stage.IsRight options files pool i

variable {options : ParseOptions} {files : List Source} {pool : MemoPool} {b b' : Batch}

theorem isRight_start : (start pool files).IsRight options files pool where
  tables memo hmem := ⟨memo, [], .inr hmem, rfl⟩
  stages i stage hstage := by
    rw [start, List.getElem?_map] at hstage
    obtain ⟨s, -, rfl⟩ := Option.map_eq_some_iff.mp hstage
    trivial

/-- One stage is replaced. -/
theorem stages_set {stages : List FileStage} {i : Nat} {next : FileStage}
    (h : ∀ (i : Nat) (stage : FileStage), stages[i]? = some stage →
      stage.IsRight options files pool i)
    (hnext : next.IsRight options files pool i) :
    ∀ (j : Nat) (stage : FileStage), (stages.set i next)[j]? = some stage →
      stage.IsRight options files pool j := by
  intro j stage hstage
  rw [List.getElem?_set] at hstage
  split at hstage
  · next heq =>
    subst heq
    split at hstage
    · cases hstage
      exact hnext
    · cases hstage
  · exact h j stage hstage

/-- What a turn keeps. -/
theorem IsRight.turn (h : b.IsRight options files pool) (hturn : Turn options files b b') :
    b'.IsRight options files pool := by
  obtain ⟨htables, hstages⟩ := h
  cases hturn with
  | acquire hstage =>
    obtain ⟨hheld, hleft⟩ := HasHistory.acquire htables
    exact ⟨hleft, stages_set hstages hheld⟩
  | @parse _ _ i memo s hstage hfile =>
    have hheld : HasHistory options pool memo := hstages i _ hstage
    refine ⟨htables, stages_set hstages ⟨?_, hheld.use (.parse s)⟩⟩
    rw [hfile, Option.map_some, Source.result_parse]
  | @release _ _ i memo result hstage =>
    obtain ⟨hresult, hheld⟩ := hstages i _ hstage
    refine ⟨fun memo' hmem => ?_, stages_set hstages hresult⟩
    rcases List.mem_cons.mp hmem with rfl | hmem
    · exact hheld.use .giveBack
    · exact htables memo' hmem

/-- **Workers get what each file gives alone**, in whatever order they take turns. -/
theorem isRight_of_runs (hruns : Runs options files (start pool files) b) :
    b.IsRight options files pool := by
  induction hruns with
  | refl => exact isRight_start
  | tail _ hturn ih => exact ih.turn hturn

/-- Files that are parsed one after the other, behind some that are done, take turns. -/
theorem runs_parseAll (files : List Source) : ∀ (before : List Source) (pool : MemoPool)
    (stages : List FileStage), before.length = stages.length →
    Runs options (before ++ files) ⟨pool, stages ++ files.map fun _ => .waiting⟩
      ⟨(Source.parseAll options pool files).2,
        stages ++ (Source.parseAll options pool files).1.map fun f => .done f.result⟩ := by
  induction files with
  | nil => exact fun before pool stages _ => .refl
  | cons s files ih =>
    intro before pool stages hlength
    have hget : ∀ stage rest, (stages ++ stage :: rest)[stages.length]? = some stage := by simp
    have hset : ∀ stage next rest, (stages ++ stage :: rest).set stages.length next =
        stages ++ next :: rest := by simp
    have hfile : (before ++ s :: files)[stages.length]? = some s := by simp [← hlength]
    -- the three turns for this file
    generalize hrest : files.map (fun _ => FileStage.waiting) = rest
    rcases hacquired : pool.acquire with ⟨memo, held⟩
    rcases hparsed : s.parse options memo with ⟨result, memo'⟩
    have hacquire : Turn options (before ++ s :: files) ⟨pool, stages ++ .waiting :: rest⟩
        ⟨held, stages ++ .holding memo :: rest⟩ := by
      have hturn := @Turn.acquire options (before ++ s :: files) pool _ _ (hget .waiting rest)
      rwa [hset, hacquired] at hturn
    have hparse : Turn options (before ++ s :: files) ⟨held, stages ++ .holding memo :: rest⟩
        ⟨held, stages ++ .parsed result memo' :: rest⟩ := by
      have hturn := @Turn.parse options _ held _ _ _ _ (hget (.holding memo) rest) hfile
      rwa [hset, hparsed] at hturn
    have hrelease : Turn options (before ++ s :: files)
        ⟨held, stages ++ .parsed result memo' :: rest⟩
        ⟨held.release memo', stages ++ .done result :: rest⟩ := by
      have hturn := @Turn.release options (before ++ s :: files) held _ _ _ _
        (hget (.parsed result memo') rest)
      rwa [hset] at hturn
    have hothers := ih (before ++ [s]) (held.release memo') (stages ++ [.done result])
      (by simp [hlength])
    rw [Source.parseAll, hacquired]
    simp only [hparsed, List.append_assoc, List.singleton_append, List.map_cons, hrest] at hothers ⊢
    exact .head hacquire (.head hparse (.head hrelease hothers))

end Batch
namespace Source

variable (options : ParseOptions)

/-- Files that are parsed one after the other with one table. -/
theorem parseEach_eq (files : List Source) : ∀ memo, parseEach options memo files =
    (files.map (alone options), TableUse.after options memo (files.map .parse)) := by
  induction files with
  | nil => exact fun memo => rfl
  | cons s files ih =>
    intro memo
    simp only [parseEach, ih, result_parse, List.map_cons, TableUse.after_cons]
    rfl

/-- Files that are parsed one after the other with the tables of a pool. -/
theorem files_parseAll (files : List Source) : ∀ pool : MemoPool,
    (parseAll options pool files).1 = files.map (alone options) := by
  induction files with
  | nil => exact fun pool => rfl
  | cons s files ih =>
    intro pool
    simp only [parseAll, ih, result_parse, List.map_cons]
    rfl

/-- **Reused tables do not show.**  Files that are parsed one after the other with one table, and
files that are parsed with the tables of a pool by workers that take turns in any order, give what
each of them gives alone, in the order of the files.  A table counts the uses that emptied it: the
parses that met a table that was not empty, and the times that it was given back; a file that cannot
be read leaves it alone. -/
theorem tables_do_not_show (files : List Source) :
    (∀ memo, parseEach options memo files =
      (files.map (alone options), TableUse.after options memo (files.map .parse))) ∧
    (∀ pool, (parseAll options pool files).1 = files.map (alone options) ∧
      Batch.Runs options files (.start pool files) ⟨(parseAll options pool files).2,
        files.map fun s => .done (s.alone options).result⟩ ∧
      ∀ b, Batch.Runs options files (.start pool files) b → b.IsRight options files pool) ∧
    (∀ memo uses, (TableUse.after options memo uses).generation =
      memo.generation + TableUse.countEmptied options memo uses) ∧
    ∀ memo, ∀ s ∈ files, s.isReadable = false → (s.parse options memo).2 = memo := by
  refine ⟨parseEach_eq options files, fun pool => ⟨files_parseAll options files pool, ?_,
    fun b => Batch.isRight_of_runs⟩, fun memo uses => TableUse.generation_after options uses memo,
    fun memo s _ => table_parse_of_unreadable options memo s⟩
  have hruns := @Batch.runs_parseAll options files [] pool [] rfl
  rwa [files_parseAll, List.map_map] at hruns

/-- A table that knows of one rule. -/
def usedTable : Memo := ({} : Memo).insert ⟨0, {}, {}⟩ .failed

/-- A buffer that is not UTF-8. -/
def broken : Source := ⟨"broken", ⟨#[0xFF]⟩, .utf8⟩

/-- A buffer without bytes. -/
def empty : Source := ⟨"empty", ⟨#[]⟩, .utf8⟩

/-- The conditions can be met: two files of which only the second can be read, and a table that is
not empty and is given back in the end.  It has been emptied twice. -/
theorem tables_do_not_show_broken :
    (parseEach {} usedTable [broken, empty]).1 = [broken, empty].map (alone {}) ∧
      (broken.parse {} usedTable).2 = usedTable ∧
      (TableUse.after {} usedTable [.parse broken, .parse empty, .giveBack]).generation = 2 := by
  obtain ⟨heach, -, huses, hleft⟩ := tables_do_not_show {} [broken, empty]
  have hused : usedTable.isEmpty = false := by
    rw [usedTable, Memo.isEmpty, Memo.size_insert, Memo.get?_empty]
    rfl
  have hbroken : broken.isReadable = false := by decide +kernel
  have hempty : empty.isReadable = true := by decide +kernel
  have htable := hleft usedTable broken (by simp) hbroken
  refine ⟨congrArg Prod.fst (heach usedTable), htable, (huses _ _).trans ?_⟩
  have hcount :
      TableUse.countEmptied {} usedTable [.parse broken, .parse empty, .giveBack] = 2 := by
    rw [TableUse.countEmptied_cons, TableUse.countEmptied_cons, TableUse.countEmptied_cons,
      TableUse.apply, TableUse.apply, htable]
    simp [TableUse.empties, hbroken, hempty, hused]
  rw [hcount]
  rfl

end Source
end Packrat
