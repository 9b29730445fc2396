/-
# Memo tables

A memo table keeps what is known of a rule at a place under some flags: that it is
being evaluated, that it fails, or what it matches.  Tables are emptied between texts
and may wait in a pool; a table counts how often it has been emptied.
-/

import Std.Data.HashMap
import Packrat.Peg.Flags
import Packrat.Peg.Match

namespace Packrat
namespace Peg

/-- A rule at a place under some flags. -/
structure MemoKey where
  rule : Nat
  pos : Pos
  flags : Flags
  deriving DecidableEq, Repr

namespace MemoKey

/-- The fields of a key side by side in one word:

| bits | 63 - 48 | 47 - 16 | 15 - 8 | 7 - 0 |
| --- | --- | --- | --- | --- |
| field | rule | token | offset | flags | -/
def word (rule : UInt16) (index : UInt32) (offset flags : UInt8) : UInt64 :=
  rule.toUInt64 <<< 48 ||| index.toUInt64 <<< 16 ||| offset.toUInt64 <<< 8 ||| flags.toUInt64

/-- Keys are spread by their word. -/
instance : Hashable MemoKey where
  hash k := hash (word (UInt16.ofNat k.rule) (UInt32.ofNat k.pos.index) k.pos.offset k.flags.bits)

end MemoKey

/-- What is known of a key. -/
inductive MemoEntry where
  | inProgress
  | failed
  | matched (stop : Pos) (nodes : List Match)
  deriving Repr, Inhabited

/-- What is known so far, and how often it has been forgotten. -/
structure Memo where
  entries : Std.HashMap MemoKey MemoEntry := {}
  generation : Nat := 0

namespace Memo

/-- What is known of a key. -/
def get? (m : Memo) (k : MemoKey) : Option MemoEntry := m.entries[k]?

/-- Note what is known of a key, in place of what was. -/
def insert (m : Memo) (k : MemoKey) (e : MemoEntry) : Memo :=
  { m with entries := m.entries.insert k e }

/-- Number of keys that something is known of. -/
def size (m : Memo) : Nat := m.entries.size

/-- Nothing is known. -/
def isEmpty (m : Memo) : Bool := m.size = 0

/-- Forget everything. -/
def reset (m : Memo) : Memo := ⟨{}, m.generation + 1⟩

end Memo

/-- Tables that wait to be used again. -/
structure MemoPool where
  tables : List Memo := []

namespace MemoPool

/-- Take the table that came last, or a new one. -/
def acquire (p : MemoPool) : Memo × MemoPool :=
  match p.tables with
  | [] => ({}, p)
  | m :: ms => (m, ⟨ms⟩)

/-- Empty a table and put it into the pool. -/
def release (p : MemoPool) (m : Memo) : MemoPool := ⟨m.reset :: p.tables⟩

/-- Number of tables in the pool. -/
def idle (p : MemoPool) : Nat := p.tables.length

end MemoPool
end Peg
end Packrat
