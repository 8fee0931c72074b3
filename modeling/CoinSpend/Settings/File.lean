import CoinSpend.Text.Hex

/-!
# Settings files

A settings file is the flat part of TOML: lines that give a key a truth value or a text, with
comments and blank lines between them. Keys may be quoted. Texts are written in one of four ways:
between single or triple quotes, in which an apostrophe stands for itself and a double quote allows
escapes.
-/

namespace CoinSpend.SettingsFile

/-- What a key can be given. -/
inductive Value where
  | flag (value : Bool)
  | text (value : String)
deriving DecidableEq, Repr

/-- The white space inside a line. -/
def isSpace (c : Char) : Bool := c = ' ' ∨ c = '\t'

/-- The characters that may stand in comments and texts: all but the controls of ASCII, and the
tabulator. -/
def isPlain (c : Char) : Bool := c = '\t' ∨ 0x20 ≤ c.toNat ∧ c.toNat ≠ 0x7f

/-- The characters of a key without quotes. -/
def isKeyChar (c : Char) : Bool := c.isAlphanum || c = '_' || c = '-'

/-- What stands behind the end of a line, if one is here. -/
def lineBreak? : List Char → Option (List Char)
  | '\n' :: rest => some rest
  | '\x0d' :: '\n' :: rest => some rest
  | _ => none

/-- What stands behind a line of which only white space and a comment may be left. -/
def endOfLine? (text : List Char) : Option (List Char) :=
  let text := text.dropWhile isSpace
  let text := if text.head? = some '#' then text.dropWhile isPlain else text
  if text = [] then some [] else lineBreak? text

/-- A part of a text: some of its characters, and what stands behind them. -/
inductive Piece where
  | more (chars rest : List Char)
  | last (chars rest : List Char)

/-- Reads a text part by part. Each part takes something away. -/
def readPieces (piece? : List Char → Option Piece) (text : List Char) :
    Option (List Char × List Char) :=
  match piece? text with
  | none => none
  | some (.last chars rest) => some (chars, rest)
  | some (.more chars rest) =>
    if _h : rest.length < text.length then
      (readPieces piece? rest).map fun (tail, rest) => (chars ++ tail, rest)
    else none
termination_by text.length

/-- The character with a number that `count` hexadecimal digits write. -/
def readCodePoint (count : Nat) (text : List Char) : Option Piece := do
  let digits ← (text.take count).mapM Hex.digitValue?
  let number := digits.foldl (fun number digit => 16 * number + digit) 0
  if digits.length = count ∧ number.isValidChar then
    some (.more [Char.ofNat number] (text.drop count))
  else none

/-- An escape, behind its backslash. -/
def readEscape : List Char → Option Piece
  | 'b' :: rest => some (.more ['\x08'] rest)
  | 't' :: rest => some (.more ['\t'] rest)
  | 'n' :: rest => some (.more ['\n'] rest)
  | 'f' :: rest => some (.more ['\x0c'] rest)
  | 'r' :: rest => some (.more ['\x0d'] rest)
  | '"' :: rest => some (.more ['"'] rest)
  | '\\' :: rest => some (.more ['\\'] rest)
  | 'u' :: rest => readCodePoint 4 rest
  | 'U' :: rest => readCodePoint 8 rest
  | _ => none

/-- A part of a text of one line between `quote` characters. -/
def linePiece? (quote : Char) (escapes : Bool) : List Char → Option Piece
  | [] => none
  | c :: rest =>
    if c = quote then some (.last [] rest)
    else if escapes ∧ c = '\\' then readEscape rest
    else if isPlain c then some (.more [c] rest)
    else none

/-- The text without the white space and the line breaks that it starts with. -/
def dropBlankLines : List Char → List Char
  | ' ' :: rest => dropBlankLines rest
  | '\t' :: rest => dropBlankLines rest
  | '\n' :: rest => dropBlankLines rest
  | '\x0d' :: '\n' :: rest => dropBlankLines rest
  | text => text

/-- What stands behind a backslash that hides the end of its line, and behind the white space that
it hides as well. -/
def hiddenBreak? (text : List Char) : Option (List Char) :=
  (lineBreak? (text.dropWhile isSpace)).map dropBlankLines

/-- A part of a text of several lines between three `quote` characters. Up to two more quotes may
stand before the three that end it. -/
def blockPiece? (quote : Char) (escapes : Bool) (text : List Char) : Option Piece :=
  if text.take 3 = [quote, quote, quote] then
    let extra := min 2 ((text.drop 3).takeWhile (· = quote)).length
    some (.last (List.replicate extra quote) (text.drop (3 + extra)))
  else
    match lineBreak? text, text with
    | some rest, _ => some (.more ['\n'] rest)
    | none, [] => none
    | none, c :: rest =>
      if escapes ∧ c = '\\' then
        match hiddenBreak? rest with
        | some rest => some (.more [] rest)
        | none => readEscape rest
      else if isPlain c then some (.more [c] rest)
      else none

/-- A text of one line, behind the quote that starts it. Double quotes allow escapes. -/
def readLineText (quote : Char) (text : List Char) : Option (List Char × List Char) :=
  readPieces (linePiece? quote (quote = '"')) text

/-- A text of several lines, behind the three quotes that start it. A line break right behind them
does not count. -/
def readBlockText (quote : Char) (text : List Char) : Option (List Char × List Char) :=
  readPieces (blockPiece? quote (quote = '"')) ((lineBreak? text).getD text)

/-- A text in any of its forms. -/
def readText : List Char → Option (List Char × List Char)
  | '"' :: '"' :: '"' :: rest => readBlockText '"' rest
  | '\'' :: '\'' :: '\'' :: rest => readBlockText '\'' rest
  | '"' :: rest => readLineText '"' rest
  | '\'' :: rest => readLineText '\'' rest
  | _ => none

/-- A truth value or a text. -/
def readValue : List Char → Option (Value × List Char)
  | 't' :: 'r' :: 'u' :: 'e' :: rest => some (.flag true, rest)
  | 'f' :: 'a' :: 'l' :: 's' :: 'e' :: rest => some (.flag false, rest)
  | text => (readText text).map fun (chars, rest) => (.text (String.ofList chars), rest)

/-- A key, with or without quotes. -/
def readKey : List Char → Option (List Char × List Char)
  | '"' :: rest => readLineText '"' rest
  | '\'' :: rest => readLineText '\'' rest
  | text =>
    let key := text.takeWhile isKeyChar
    if key = [] then none else some (key, text.dropWhile isKeyChar)

/-- A key and its value up to the end of their line, and what stands behind it. -/
def readEntry (text : List Char) : Option ((String × Value) × List Char) := do
  let (key, rest) ← readKey text
  match rest.dropWhile isSpace with
  | '=' :: rest =>
    let (value, rest) ← readValue (rest.dropWhile isSpace)
    return ((String.ofList key, value), ← endOfLine? rest)
  | _ => none

/-- The entries of the lines. Each line takes something away. -/
def readLines (text : List Char) : Option (List (String × Value)) :=
  if text = [] then some []
  else
    match endOfLine? text with
    | some rest => if _h : rest.length < text.length then readLines rest else none
    | none =>
      match readEntry (text.dropWhile isSpace) with
      | none => none
      | some (entry, rest) =>
        if _h : rest.length < text.length then (readLines rest).map (entry :: ·) else none
termination_by text.length

/-- The entries of a file, which may start with a byte order mark. -/
def read : List Char → Option (List (String × Value))
  | '\ufeff' :: text => readLines text
  | text => readLines text

end CoinSpend.SettingsFile
