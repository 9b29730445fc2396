/-
# Parsing a text

Bytes are decoded, cut into tokens, matched against a rule of the language and built into
a tree that covers the whole text.  The first error ends the work.
-/

import Packrat.Diagnostic.ParseError
import Packrat.Language
import Packrat.Peg.Evaluation
import Packrat.Text.Encoding
import Packrat.Token.Stream
import Packrat.Tree.Build
import Packrat.Tree.Located

namespace Packrat

open Peg

/-- Everything that can keep a text from having a tree. -/
inductive Error where
  | encoding (e : EncodingError)
  | lex (e : LexError)
  | parse (e : ParseError)
  | grammar (e : GrammarError)
  | fault (f : Fault)
  deriving DecidableEq, Repr

namespace Error

/-- The error in words. -/
def message : Error → String
  | encoding e => e.message
  | lex e => e.message
  | parse e => e.message
  | grammar e => "invalid grammar: " ++ e.message
  | fault f => f.message

/-- The diagnostic of an error that has a place in a text. -/
def diagnostic? : Error → Option Diagnostic
  | lex e => some (.ofLexError e)
  | parse e => some e.diagnostic
  | _ => none

/-- No rule could read on. -/
def isSyntax : Error → Bool
  | parse (.syntaxError _) => true
  | _ => false

end Error

/-- How far a parse may go.  The default depth admits some fifty levels of nesting. -/
structure ParseOptions where
  maxSteps : Option Nat := none
  maxDepth : Option Nat := some 1024
  deriving DecidableEq, Repr

/-- What an evaluation took. -/
structure Stats where
  steps : Nat
  memoEntries : Nat
  deriving DecidableEq, Repr

/-- A text with its tree. -/
structure Parse where
  tree : Tree
  stream : TokenStream
  stats : Stats

/-- What the rules see of a token stream. -/
def TokenStream.symbols (s : TokenStream) : Array Symbol :=
  s.tokens.map fun t => ⟨t.kind, t.text⟩

namespace Parse

/-- The tokens of a buffer. -/
def tokenize (e : Encoding) (bytes : ByteArray) : Except Error TokenStream := do
  let text ← (e.decode bytes).mapError .encoding
  (TokenStream.ofText text).mapError .lex

/-- The syntax error of a failure: at the token it names, or inside it behind the pieces
that have been split off; past the last token, at the end of the text. -/
def syntaxError (stream : TokenStream) (f : Failure) : SyntaxError :=
  match stream.tokens[min f.pos.index (stream.size - 1)]? with
  | none => .of {} 0 0 none f.expected f.context
  | some t =>
    let skip := min f.pos.offset.toNat t.text.utf8ByteSize
    let rest := ((Text.dropBytes? skip t.text.toList).map String.ofList).getD ""
    let found := if t.kind = .eof then none else some rest
    .of ⟨t.position.line, t.position.column + skip⟩ (t.range.start + skip) rest.utf8ByteSize
      found f.expected f.context

/-- What the end of an evaluation over a stream comes to: a tree over the stream, or why
there is none. -/
def answer (stream : TokenStream) (r : Machine.Run) : Except Error Parse :=
  match r.result with
  | .ok (matched, _) =>
    .ok ⟨Tree.build stream .sourceFile matched, stream, ⟨r.state.steps, r.state.memo.size⟩⟩
  | .error (.budget steps) => .error (.parse (.budget steps))
  | .error (.depth limit) => .error (.parse (.depth limit))
  | .error (.failure f) => .error (.parse (.syntaxError (syntaxError stream f)))

/-- Match a term of a grammar against a whole stream, with a memo table that is emptied
first unless it is empty.  The table is returned as the evaluation leaves it. -/
def runWith (grammar : Except GrammarError Grammar) (root : Term) (options : ParseOptions)
    (stream : TokenStream) (memo : Memo) : Except Error Parse × Memo :=
  match grammar with
  | .error e => (.error (.grammar e), memo)
  | .ok grammar =>
    let machine : Machine :=
      ⟨grammar, stream.symbols, { maxSteps := options.maxSteps, maxDepth := options.maxDepth }⟩
    match machine.run root { memo := if memo.isEmpty then memo else memo.reset } with
    | .error f => (.error (.fault f), {})
    | .ok r => (answer stream r, r.state.memo)

/-- Match a term of the language against a whole stream. -/
def run (root : Term) (options : ParseOptions) (stream : TokenStream) (memo : Memo) :
    Except Error Parse × Memo :=
  runWith Language.grammar root options stream memo

/-- Parse a token stream as a whole file. -/
def ofStream (options : ParseOptions) (stream : TokenStream) (memo : Memo) :
    Except Error Parse × Memo :=
  run (.rule Language.fileRule.name) options stream memo

/-- Parse a text as a whole file. -/
def ofText (text : List Char) (options : ParseOptions := {}) : Except Error Parse := do
  let stream ← (TokenStream.ofText text).mapError .lex
  (ofStream options stream {}).1

/-- Parse a buffer as a whole file. -/
def ofBytes (e : Encoding) (bytes : ByteArray) (options : ParseOptions := {}) :
    Except Error Parse := do
  let text ← (e.decode bytes).mapError .encoding
  ofText text options

/-- Parse a text as exactly one construct. -/
def ofEntry (entry : Language.Entry) (text : List Char) (options : ParseOptions := {}) :
    Except Error Parse := do
  let stream ← (TokenStream.ofText text).mapError .lex
  (run (.seq [.rule entry.ruleName, .ended]) options stream {}).1

/-- The root of the tree. -/
def root (p : Parse) : Located := { tree := p.tree }

/-- The text, from the tree. -/
def text (p : Parse) : String := p.tree.text

end Parse
end Packrat
