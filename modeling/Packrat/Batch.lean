/-
# Parsing many files

Files are parsed one after the other.  Each takes a memo table from a pool and gives it
back when it is done; the answers come in the order of the files.
-/

import Packrat.Metrics

namespace Packrat

open Peg

/-- A buffer with a label. -/
structure Source where
  name : String
  bytes : ByteArray
  encoding : Encoding := .utf8

/-- What became of a file. -/
structure ParsedFile where
  name : String
  result : Except Error Parse

namespace ParsedFile

/-- The file has a tree. -/
def isOk (f : ParsedFile) : Bool := f.result.isOk

/-- The sizes of a file that has a tree. -/
def metrics? (f : ParsedFile) : Option Metrics := f.result.toOption.map .ofParse

end ParsedFile

namespace Source

/-- Parse a file with a given table.  A buffer that is not decoded or not cut into tokens
leaves the table alone. -/
def parse (options : ParseOptions) (memo : Memo) (s : Source) : Except Error Parse × Memo :=
  match Parse.tokenize s.encoding s.bytes with
  | .error e => (.error e, memo)
  | .ok stream => Parse.ofStream options stream memo

/-- Parse files one after the other with one table. -/
def parseEach (options : ParseOptions) (memo : Memo) : List Source → List ParsedFile × Memo
  | [] => ([], memo)
  | s :: rest =>
    let (result, memo) := s.parse options memo
    let (outcomes, memo) := parseEach options memo rest
    (⟨s.name, result⟩ :: outcomes, memo)

/-- Parse files with tables of a pool. -/
def parseAll (options : ParseOptions) (pool : MemoPool) :
    List Source → List ParsedFile × MemoPool
  | [] => ([], pool)
  | s :: rest =>
    let (memo, pool) := pool.acquire
    let (result, memo) := s.parse options memo
    let (outcomes, pool) := parseAll options (pool.release memo) rest
    (⟨s.name, result⟩ :: outcomes, pool)

end Source
end Packrat
