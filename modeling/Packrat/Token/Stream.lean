/-
# Token streams

The tokens of a whole text.  Lexemes are grouped from left to right: trivia wait for
the next token, which takes them along; at the end of the text `eof` takes the rest.
The first lexical fault ends the reading.
-/

import Packrat.Lexeme.Scan
import Packrat.Text.Cursor
import Packrat.Token

namespace Packrat

/-- The tokens of a text, `eof` last. -/
structure TokenStream where
  tokens : Array Token
  deriving DecidableEq, Repr

namespace TokenStream

/-- What has been read of a text: the position reached, the bytes passed, the tokens
so far (last first) and the trivia that wait for the next token (last first). -/
structure Reader where
  cursor : Cursor := {}
  offset : Nat := 0
  tokens : List Token := []
  waiting : List Trivia := []

/-- Add a lexeme to what has been read. -/
def Reader.push (r : Reader) (l : Lexeme) : Reader :=
  let text := String.ofList l.text
  let position := r.cursor.position
  let passed := { r with cursor := r.cursor.advance l.text, offset := l.range.stop }
  match TriviaKind.ofKind? l.kind with
  | some kind => { passed with waiting := ⟨kind, text, l.range, position⟩ :: r.waiting }
  | none =>
    { passed with
      tokens := ⟨l.kind, text, l.range, position, r.waiting.reverse⟩ :: r.tokens
      waiting := [] }

/-- Close the stream with `eof`. -/
def Reader.finish (r : Reader) : TokenStream :=
  let eof : Token := ⟨.eof, "", ⟨r.offset, r.offset⟩, r.cursor.position, r.waiting.reverse⟩
  ⟨(eof :: r.tokens).reverse.toArray⟩

/-- Group lexemes up to the first fault. -/
def ofItems (r : Reader) : List Lexeme.Item → Except LexError TokenStream
  | [] => .ok r.finish
  | .ok l :: rest => ofItems (r.push l) rest
  | .error (fault, offset) :: _ => .error ⟨fault, offset, r.cursor.position⟩

/-- The tokens of a text. -/
def ofText (text : List Char) : Except LexError TokenStream := ofItems {} (Lexeme.items text)

/-- Number of tokens, `eof` included. -/
def size (s : TokenStream) : Nat := s.tokens.size

/-- There is no token but `eof`. -/
def isEmpty (s : TokenStream) : Bool := s.size ≤ 1

/-- Number of tokens without `eof`. -/
def significantSize (s : TokenStream) : Nat := s.size - 1

/-- All trivia, in order. -/
def trivia (s : TokenStream) : List Trivia := s.tokens.toList.flatMap (·.trivia)

/-- The texts of all trivia and tokens, in order. -/
def text (s : TokenStream) : String := String.join (s.tokens.toList.map Token.fullText)

end TokenStream
end Packrat
