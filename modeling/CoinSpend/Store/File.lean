import CoinSpend.Text.Hex

/-!
# Store files

A store file is a JSON object whose values are texts. Reading gives the entries in the order of the
file, with repeated keys; writing puts each entry on a line of its own.

* `length_readText`: reading a text takes something away, so reading entries ends.
-/

namespace CoinSpend.StoreFile

/-- The white space between tokens. -/
def isBlank (c : Char) : Bool := c = ' ' ∨ c = '\t' ∨ c = '\n' ∨ c = '\x0d'

/-- The text from its first token on. -/
def skipBlank (text : List Char) : List Char := text.dropWhile isBlank

/-- The text behind a token of one character, with white space before it. -/
def token? (c : Char) (text : List Char) : Option (List Char) :=
  match skipBlank text with
  | [] => none
  | d :: rest => if c = d then some rest else none

/-- The number that four hexadecimal digits write. -/
def codeUnit? (a b c d : Char) : Option Nat := do
  return ((16 * (← Hex.digitValue? a) + (← Hex.digitValue? b)) * 16 + (← Hex.digitValue? c)) * 16
    + (← Hex.digitValue? d)

/-- Whether a code unit is the first half of a character. -/
def isHighHalf (unit : Nat) : Bool := 0xd800 ≤ unit && unit ≤ 0xdbff

/-- Whether a code unit is the second half of a character. -/
def isLowHalf (unit : Nat) : Bool := 0xdc00 ≤ unit && unit ≤ 0xdfff

/-- The character that two halves write. -/
def joinHalves (high low : Nat) : Char :=
  Char.ofNat (0x10000 + (high - 0xd800) * 0x400 + (low - 0xdc00))

/-- The character of a short escape. -/
def shortEscape? : Char → Option Char
  | '"' => some '"'
  | '\\' => some '\\'
  | '/' => some '/'
  | 'b' => some '\x08'
  | 'f' => some '\x0c'
  | 'n' => some '\n'
  | 'r' => some '\x0d'
  | 't' => some '\t'
  | _ => none

/-- One character of a text, and what stands behind it. A text holds no control characters below the
space, and a half of a character does not stand alone. -/
def readChar : List Char → Option (Char × List Char)
  | '\\' :: 'u' :: a :: b :: c :: d :: rest => do
    let unit ← codeUnit? a b c d
    if isHighHalf unit then
      match rest with
      | '\\' :: 'u' :: e :: f :: g :: h :: rest =>
        let low ← codeUnit? e f g h
        if isLowHalf low then some (joinHalves unit low, rest) else none
      | _ => none
    else if isLowHalf unit then none
    else some (Char.ofNat unit, rest)
  | '\\' :: c :: rest => (shortEscape? c).map fun d => (d, rest)
  | '\\' :: [] => none
  | c :: rest => if c.toNat < 0x20 then none else some (c, rest)
  | [] => none

theorem length_readChar {text rest : List Char} {c : Char} (h : readChar text = some (c, rest)) :
    rest.length < text.length := by
  unfold readChar at h
  split at h
  · simp only [Option.bind_eq_bind, Option.bind_eq_some_iff] at h
    obtain ⟨unit, -, h⟩ := h
    split at h
    · split at h
      · simp only [Option.bind_eq_some_iff] at h
        obtain ⟨low, -, h⟩ := h
        split at h
        · simp only [Option.some.injEq, Prod.mk.injEq] at h
          simp only [← h.2, List.length_cons]
          omega
        · simp at h
      · simp at h
    · split at h
      · simp at h
      · simp only [Option.some.injEq, Prod.mk.injEq] at h
        simp only [← h.2, List.length_cons]
        omega
  · obtain ⟨d, -, h⟩ := Option.map_eq_some_iff.mp h
    simp only [Prod.mk.injEq] at h
    simp only [← h.2, List.length_cons]
    omega
  · simp at h
  · split at h
    · simp at h
    · simp only [Option.some.injEq, Prod.mk.injEq] at h
      simp [← h.2]
  · simp at h

/-- The characters up to the quote that ends a text, and what stands behind it. -/
def readText (text : List Char) : Option (List Char × List Char) :=
  if text.head? = some '"' then some ([], text.tail)
  else
    match _h : readChar text with
    | none => none
    | some (c, rest) => (readText rest).map fun (cs, rest) => (c :: cs, rest)
termination_by text.length
decreasing_by exact length_readChar _h

theorem length_readText {text cs rest : List Char} (h : readText text = some (cs, rest)) :
    rest.length < text.length := by
  induction hn : text.length using Nat.strongRecOn generalizing text cs with
  | ind n ih =>
    subst hn
    rw [readText] at h
    split at h
    · next hquote =>
      simp only [Option.some.injEq, Prod.mk.injEq] at h
      rw [← h.2]
      cases text with
      | nil => simp at hquote
      | cons => simp
    · split at h
      · simp at h
      · next c rest' hchar =>
        obtain ⟨⟨cs', rest''⟩, htext, heq⟩ := Option.map_eq_some_iff.mp h
        simp only [Prod.mk.injEq] at heq
        have hlt := length_readChar hchar
        exact Nat.lt_trans (ih _ hlt (heq.2 ▸ htext) rfl) hlt

theorem length_token? {c : Char} {text rest : List Char} (h : token? c text = some rest) :
    rest.length < text.length := by
  have hle : (skipBlank text).length ≤ text.length := (List.dropWhile_suffix _).length_le
  unfold token? at h
  split at h
  · simp at h
  · next heq =>
    split at h
    · simp only [Option.some.injEq] at h
      rw [heq, h, List.length_cons] at hle
      omega
    · simp at h

/-- A key and its value, and what stands behind them. -/
def readEntry (text : List Char) : Option ((String × String) × List Char) := do
  let (key, rest) ← readText (← token? '"' text)
  let (value, rest) ← readText (← token? '"' (← token? ':' rest))
  return ((String.ofList key, String.ofList value), rest)

theorem length_readEntry {text rest : List Char} {entry : String × String}
    (h : readEntry text = some (entry, rest)) : rest.length < text.length := by
  simp only [readEntry, Option.bind_eq_bind, Option.bind_eq_some_iff, Option.pure_def,
    Option.some.injEq, Prod.mk.injEq] at h
  obtain ⟨t₁, h₁, ⟨key, t₂⟩, h₂, t₃, h₃, t₄, h₄, ⟨value, t₅⟩, h₅, -, rfl⟩ := h
  have := length_token? h₁
  have := length_readText h₂
  have := length_token? h₃
  have := length_token? h₄
  have := length_readText h₅
  dsimp only at *
  omega

/-- The entries up to the brace that ends the object, of which there is at least one, and what
stands behind it. -/
def readEntries (text : List Char) : Option (List (String × String) × List Char) :=
  match _h : readEntry text with
  | none => none
  | some (entry, rest) =>
    match _hcomma : token? ',' rest with
    | some rest => (readEntries rest).map fun (entries, rest) => (entry :: entries, rest)
    | none => (token? '\x7d' rest).map fun rest => ([entry], rest)
termination_by text.length
decreasing_by
  have := length_readEntry _h
  have := length_token? _hcomma
  omega

/-- The entries of a file. -/
def read (text : List Char) : Option (List (String × String)) := do
  let body ← token? '\x7b' text
  let (entries, rest) ← match token? '\x7d' body with
    | some rest => some ([], rest)
    | none => readEntries body
  if skipBlank rest = [] then some entries else none

/-- The characters that stand for `c` in a text. -/
def escape (c : Char) : List Char :=
  if c = '"' ∨ c = '\\' then ['\\', c]
  else if c = '\x08' then ['\\', 'b']
  else if c = '\x0c' then ['\\', 'f']
  else if c = '\n' then ['\\', 'n']
  else if c = '\x0d' then ['\\', 'r']
  else if c = '\t' then ['\\', 't']
  else if c.toNat < 0x20 then ['\\', 'u', '0', '0'] ++ Hex.byteDigits (UInt8.ofNat c.toNat)
  else [c]

/-- A text between quotes. -/
def writeText (text : String) : String :=
  String.ofList ('"' :: text.toList.flatMap escape ++ ['"'])

/-- A file with the given entries, one on a line. -/
def write (entries : List (String × String)) : String :=
  if entries = [] then "\x7b\x7d"
  else
    let lines := entries.map fun (key, value) => "  " ++ writeText key ++ ": " ++ writeText value
    "\x7b\n" ++ ",\n".intercalate lines ++ "\n\x7d"

end CoinSpend.StoreFile
