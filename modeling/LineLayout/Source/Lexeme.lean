-- Cutting a program text into lexemes. Each lexeme is the longest one that starts there:
-- a line break with the blanks before it, a run of blanks, a directive, a comment, a word, a
-- number, a quoted string or a symbol. What starts none of these is a symbol too, so no
-- character is lost.
import LineLayout.Token

namespace LineLayout

/-- A piece of text and its kind. -/
structure Lexeme where
  kind : Kind
  text : List Char
  deriving DecidableEq

namespace Lexeme

/-! ## Words and signs -/

/-- The words that a program cannot use as names, in lower case. -/
def reservedWords : List String :=
  ["and", "array", "asm", "begin", "case", "class", "const", "constructor", "destructor",
    "div", "do", "downto", "else", "end", "except", "file", "finally", "for", "function",
    "goto", "if", "implementation", "in", "inherited", "interface", "label", "mod", "nil",
    "not", "of", "or", "packed", "procedure", "program", "record", "repeat", "set", "shl",
    "shr", "then", "to", "try", "type", "unit", "until", "uses", "var", "while", "with",
    "xor"]

/-- A reserved word in any case is reserved. Every other word is an identifier. -/
def wordKind (word : List Char) : Kind :=
  if reservedWords.contains (String.ofList (word.map Char.toLower)) then .reservedWord
  else .identifier

/-- The signs of two characters. -/
def pairs : List (Char × Char) := [(':', '='), ('<', '='), ('>', '='), ('<', '>'), ('.', '.')]

def isBlank (c : Char) : Bool := c == ' ' || c == '\t'

def startsWord (c : Char) : Bool := c.isAlpha || c == '_'

def continuesWord (c : Char) : Bool := c.isAlphanum || c == '_'

/-! ## The first lexeme of a text -/

/-- The line break at the front of a text, and the rest. -/
def lineBreak? : List Char → Option (List Char × List Char)
  | '\n' :: rest => some (['\n'], rest)
  | '\r' :: '\n' :: rest => some (['\r', '\n'], rest)
  | _ => none

/-- Blanks at the front with the line break that they run into, or the blanks alone. -/
def whitespace? (text : List Char) : Option (Lexeme × List Char) :=
  match lineBreak? (text.dropWhile isBlank) with
  | some (ending, after) => some (⟨.whitespace, text.takeWhile isBlank ++ ending⟩, after)
  | none =>
    if text.takeWhile isBlank = [] then none
    else some (⟨.whitespace, text.takeWhile isBlank⟩, text.dropWhile isBlank)

/-- What starts with an open brace. A dollar sign after the brace makes it a directive. A
brace that is never closed runs to the end of the text. -/
def braced (text : List Char) : Lexeme × List Char :=
  match text.dropWhile (· != '\x7d') with
  | [] => (⟨.symbol, '\x7b' :: text⟩, [])
  | close :: rest =>
    (⟨if text.head? = some '$' then .directive else .comment,
      '\x7b' :: (text.takeWhile (· != '\x7d') ++ [close])⟩, rest)

/-- A quoted string goes on over this character. -/
def insideQuotes (c : Char) : Bool := c != '\x27' && c != '\n'

/-- What starts with a quote. A quote that is not closed on its line runs to the end of the
line. -/
def quoted (text : List Char) : Lexeme × List Char :=
  match text.dropWhile insideQuotes with
  | '\x27' :: rest => (⟨.string, '\x27' :: (text.takeWhile insideQuotes ++ ['\x27'])⟩, rest)
  | rest => (⟨.symbol, '\x27' :: text.takeWhile insideQuotes⟩, rest)

/-- A sign of two characters where there is one, else one character. -/
def sign (c : Char) : List Char → Lexeme × List Char
  | next :: rest =>
    if pairs.contains (c, next) then (⟨.symbol, [c, next]⟩, rest)
    else (⟨.symbol, [c]⟩, next :: rest)
  | [] => (⟨.symbol, [c]⟩, [])

/-- The first lexeme of a text that does not start with whitespace. -/
def visible (c : Char) (text : List Char) : Lexeme × List Char :=
  if c = '\x7b' then braced text
  else if c = '/' ∧ text.head? = some '/' then
    (⟨.comment, c :: text.takeWhile (· != '\n')⟩, text.dropWhile (· != '\n'))
  else if startsWord c then
    (⟨wordKind (c :: text.takeWhile continuesWord), c :: text.takeWhile continuesWord⟩,
      text.dropWhile continuesWord)
  else if c.isDigit then
    (⟨.number, c :: text.takeWhile Char.isDigit⟩, text.dropWhile Char.isDigit)
  else if c = '\x27' then quoted text
  else sign c text

/-- The first lexeme of a text that is not empty, and the rest. -/
def first (c : Char) (text : List Char) : Lexeme × List Char :=
  (whitespace? (c :: text)).getD (visible c text)

/-! ## Nothing is lost -/

theorem lineBreak?_append {text ending after : List Char}
    (h : lineBreak? text = some (ending, after)) : ending ++ after = text := by
  unfold lineBreak? at h
  split at h
  · obtain ⟨rfl, rfl⟩ := Prod.mk.inj (Option.some.inj h); rfl
  · obtain ⟨rfl, rfl⟩ := Prod.mk.inj (Option.some.inj h); rfl
  · cases h

theorem lineBreak?_ne_nil {text ending after : List Char}
    (h : lineBreak? text = some (ending, after)) : ending ≠ [] := by
  unfold lineBreak? at h
  split at h
  · obtain ⟨rfl, rfl⟩ := Prod.mk.inj (Option.some.inj h); simp
  · obtain ⟨rfl, rfl⟩ := Prod.mk.inj (Option.some.inj h); simp
  · cases h

theorem whitespace?_append {text : List Char} {lexeme : Lexeme} {rest : List Char}
    (h : whitespace? text = some (lexeme, rest)) : lexeme.text ++ rest = text := by
  unfold whitespace? at h
  split at h
  · next ending after hb =>
    obtain ⟨rfl, rfl⟩ := Prod.mk.inj (Option.some.inj h)
    rw [List.append_assoc, lineBreak?_append hb, List.takeWhile_append_dropWhile]
  · split at h
    · cases h
    · obtain ⟨rfl, rfl⟩ := Prod.mk.inj (Option.some.inj h)
      exact List.takeWhile_append_dropWhile

theorem whitespace?_ne_nil {text : List Char} {lexeme : Lexeme} {rest : List Char}
    (h : whitespace? text = some (lexeme, rest)) : lexeme.text ≠ [] := by
  unfold whitespace? at h
  split at h
  · next ending after hb =>
    obtain ⟨rfl, rfl⟩ := Prod.mk.inj (Option.some.inj h)
    simp [lineBreak?_ne_nil hb]
  · split at h
    · cases h
    · next hne =>
      obtain ⟨rfl, rfl⟩ := Prod.mk.inj (Option.some.inj h)
      simpa using hne

theorem braced_append (text : List Char) :
    (braced text).1.text ++ (braced text).2 = '\x7b' :: text := by
  have h := List.takeWhile_append_dropWhile (l := text) (p := (· != '\x7d'))
  unfold braced
  split
  · simp
  · next close rest hd => simpa [hd] using h

theorem quoted_append (text : List Char) :
    (quoted text).1.text ++ (quoted text).2 = '\x27' :: text := by
  have h := List.takeWhile_append_dropWhile (l := text) (p := insideQuotes)
  unfold quoted
  split
  · next rest hd => simpa [hd] using h
  · simp [List.takeWhile_append_dropWhile]

theorem sign_append (c : Char) (text : List Char) :
    (sign c text).1.text ++ (sign c text).2 = c :: text := by
  unfold sign
  split
  · split <;> simp
  · simp

theorem visible_append (c : Char) (text : List Char) :
    (visible c text).1.text ++ (visible c text).2 = c :: text := by
  unfold visible
  split
  · next h => rw [h]; exact braced_append text
  · split
    · simp [List.takeWhile_append_dropWhile]
    · split
      · simp [List.takeWhile_append_dropWhile]
      · split
        · simp [List.takeWhile_append_dropWhile]
        · split
          · next h => rw [h]; exact quoted_append text
          · exact sign_append c text

theorem visible_ne_nil (c : Char) (text : List Char) : (visible c text).1.text ≠ [] := by
  unfold visible
  split
  · unfold braced; split <;> simp
  · split
    · simp
    · split
      · simp
      · split
        · simp
        · split
          · unfold quoted; split <;> simp
          · unfold sign; split <;> try split
            all_goals simp

/-- The first lexeme and the rest are the text. -/
theorem first_append (c : Char) (text : List Char) :
    (first c text).1.text ++ (first c text).2 = c :: text := by
  unfold first
  cases h : whitespace? (c :: text) with
  | none => exact visible_append c text
  | some found => exact whitespace?_append h

/-- A lexeme has at least one character. -/
theorem first_ne_nil (c : Char) (text : List Char) : (first c text).1.text ≠ [] := by
  unfold first
  cases h : whitespace? (c :: text) with
  | none => exact visible_ne_nil c text
  | some found => exact whitespace?_ne_nil h

theorem first_rest_length (c : Char) (text : List Char) :
    (first c text).2.length < (c :: text).length := by
  have happ := congrArg List.length (first_append c text)
  have hpos := List.length_pos_iff.mpr (first_ne_nil c text)
  rw [List.length_append] at happ
  omega

/-! ## All lexemes -/

/-- The lexemes of a text, in order. -/
def ofText : List Char → List Lexeme
  | [] => []
  | c :: text => (first c text).1 :: ofText (first c text).2
termination_by text => text.length
decreasing_by exact first_rest_length c text

end Lexeme

end LineLayout
