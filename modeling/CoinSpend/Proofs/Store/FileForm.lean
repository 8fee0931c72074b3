import CoinSpend.Store.File
import Mathlib

/-!
# Reading written store files

A text is written between quotes with the characters that could end it, and those that may not stand
in it, escaped. So reading it stops at its own last quote, and a file is read back entry by entry.

Results:
* `readChar_escape`: each character is read back from its escape, in front of any text.
* `readText_flatMap_escape`: a text is read up to the quote behind it.
* `readEntries_lines`: the entries on lines of their own are read one after another.
* `read_write`: a written file is read back, for any entries.
-/

namespace CoinSpend.StoreFile

/-! ## Characters -/

/-- The two digits of a control character are those of its number. -/
theorem codeUnit?_byteDigits {c : Char} (h : c.toNat < 0x20) :
    ∃ a b, Hex.byteDigits (UInt8.ofNat c.toNat) = [a, b] ∧
      codeUnit? '0' '0' a b = some c.toNat := by
  have hbyte : (UInt8.ofNat c.toNat).toNat = c.toNat := by
    rw [UInt8.toNat_ofNat']
    omega
  refine ⟨_, _, rfl, ?_⟩
  have hhigh := Hex.digitValue?_digit (show c.toNat / 16 < 16 by omega)
  have hlow := Hex.digitValue?_digit (show c.toNat % 16 < 16 by omega)
  have hzero : Hex.digitValue? '0' = some 0 := by decide
  simp only [codeUnit?, hbyte, hhigh, hlow, hzero, Option.bind_eq_bind, Option.bind_some,
    Option.pure_def, Option.some.injEq]
  omega

theorem readChar_escape (c : Char) (rest : List Char) :
    readChar (escape c ++ rest) = some (c, rest) := by
  unfold escape
  split_ifs with hquoted hb hf hn hr ht hcontrol
  · rcases hquoted with rfl | rfl <;> rfl
  · rw [hb]; rfl
  · rw [hf]; rfl
  · rw [hn]; rfl
  · rw [hr]; rfl
  · rw [ht]; rfl
  · obtain ⟨a, b, hdigits, hunit⟩ := codeUnit?_byteDigits hcontrol
    rw [hdigits]
    have hhigh : isHighHalf c.toNat = false := by
      simp only [isHighHalf, Bool.and_eq_false_imp, decide_eq_true_eq]
      omega
    have hlow : isLowHalf c.toNat = false := by
      simp only [isLowHalf, Bool.and_eq_false_imp, decide_eq_true_eq]
      omega
    simp [readChar, hunit, hhigh, hlow, Char.ofNat_toNat]
  · have hplain : c ≠ '\\' := fun h => hquoted (.inr h)
    simp [readChar, hplain, hcontrol]

theorem head?_escape (c : Char) (rest : List Char) : (escape c ++ rest).head? ≠ some '"' := by
  unfold escape
  split_ifs with hquoted <;> simp
  exact fun h => hquoted (.inl h)

/-! ## Texts -/

theorem readText_quote (rest : List Char) : readText ('"' :: rest) = some ([], rest) := by
  rw [readText]
  rfl

theorem readText_escape (c : Char) (text : List Char) :
    readText (escape c ++ text) = (readText text).map fun (cs, rest) => (c :: cs, rest) := by
  rw [readText, if_neg (head?_escape c text)]
  split
  · next h => rw [readChar_escape] at h; cases h
  · next h =>
    rw [readChar_escape] at h
    cases h
    rfl

/-- A text is read up to the quote behind it. -/
theorem readText_flatMap_escape (text rest : List Char) :
    readText (text.flatMap escape ++ '"' :: rest) = some (text, rest) := by
  induction text with
  | nil => exact readText_quote rest
  | cons c cs ih =>
    rw [List.flatMap_cons, List.append_assoc, readText_escape, ih]
    rfl

/-! ## Tokens -/

theorem token?_blank {b : Char} (h : isBlank b) (c : Char) (text : List Char) :
    token? c (b :: text) = token? c text := by
  unfold token? skipBlank
  rw [List.dropWhile_cons_of_pos h]

theorem token?_cons {d : Char} (h : isBlank d = false) (c : Char) (text : List Char) :
    token? c (d :: text) = if c = d then some text else none := by
  unfold token? skipBlank
  rw [List.dropWhile_cons_of_neg (Bool.not_eq_true _ ▸ h)]

/-! ## Entries -/

/-- The line of an entry. -/
def line (entry : String × String) : List Char :=
  ("  " ++ writeText entry.1 ++ ": " ++ writeText entry.2).toList

theorem line_append (key value : String) (rest : List Char) :
    line (key, value) ++ rest = ' ' :: ' ' :: '"' :: (key.toList.flatMap escape ++ '"' :: ':' ::
      ' ' :: '"' :: (value.toList.flatMap escape ++ '"' :: rest)) := by
  simp [line, writeText]

theorem readEntry_blank {b : Char} (h : isBlank b) (text : List Char) :
    readEntry (b :: text) = readEntry text := by
  unfold readEntry
  rw [token?_blank h]

theorem readEntry_line (entry : String × String) (rest : List Char) :
    readEntry (line entry ++ rest) = some (entry, rest) := by
  obtain ⟨key, value⟩ := entry
  have hspace : isBlank ' ' := by decide
  have hcolon : isBlank ':' = false := by decide
  have hquote : isBlank '"' = false := by decide
  rw [line_append, readEntry_blank hspace, readEntry_blank hspace]
  simp only [readEntry, token?_cons hquote, token?_cons hcolon, token?_blank hspace, if_true,
    readText_flatMap_escape, Option.bind_eq_bind, Option.bind_some, Option.pure_def,
    String.ofList_toList]

theorem readEntries_blank {b : Char} (h : isBlank b) (text : List Char) :
    readEntries (b :: text) = readEntries text := by
  rw [readEntries, readEntries, readEntry_blank h]

theorem readEntries_of_comma {text rest more : List Char} {entry : String × String}
    (hentry : readEntry text = some (entry, rest)) (hcomma : token? ',' rest = some more) :
    readEntries text = (readEntries more).map fun (entries, rest) => (entry :: entries, rest) := by
  rw [readEntries]
  split
  · next h => rw [hentry] at h; cases h
  · next h =>
    rw [hentry] at h
    cases h
    split
    · next h => rw [hcomma] at h; cases h; rfl
    · next h => rw [hcomma] at h; cases h

theorem readEntries_of_brace {text rest : List Char} {entry : String × String}
    (hentry : readEntry text = some (entry, rest)) (hcomma : token? ',' rest = none) :
    readEntries text = (token? '\x7d' rest).map fun rest => ([entry], rest) := by
  rw [readEntries]
  split
  · next h => rw [hentry] at h; cases h
  · next h =>
    rw [hentry] at h
    cases h
    split
    · next h => rw [hcomma] at h; cases h
    · rfl

/-- The lines of entries, with commas between them, are read up to the brace behind them. -/
theorem readEntries_lines {entries : List (String × String)} (h : entries ≠ [])
    (rest : List Char) :
    readEntries ([',', '\n'].intercalate (entries.map line) ++ '\n' :: '\x7d' :: rest) =
      some (entries, rest) := by
  have hbreak : isBlank '\n' := by decide
  have hcomma : isBlank ',' = false := by decide
  have hbrace : isBlank '\x7d' = false := by decide
  induction entries with
  | nil => exact absurd rfl h
  | cons entry entries ih =>
    cases entries with
    | nil =>
      rw [List.map_singleton, List.intercalate_singleton,
        readEntries_of_brace (readEntry_line entry _) (by simp [token?_blank hbreak,
          token?_cons hbrace]), token?_blank hbreak, token?_cons hbrace]
      rfl
    | cons next entries =>
      rw [List.map_cons, List.map_cons, List.intercalate_cons_cons, ← List.map_cons,
        List.append_assoc, List.append_assoc, List.cons_append, List.cons_append, List.nil_append,
        readEntries_of_comma (readEntry_line entry _) (token?_cons hcomma ..),
        readEntries_blank hbreak, ih (List.cons_ne_nil _ _)]
      rfl

theorem toList_write {entries : List (String × String)} (h : entries ≠ []) :
    (write entries).toList =
      '\x7b' :: '\n' :: ([',', '\n'].intercalate (entries.map line) ++ ['\n', '\x7d']) := by
  unfold write
  rw [if_neg h, String.toList_append, String.toList_append, String.toList_intercalate,
    List.map_map]
  rfl

/-- No brace stands before the first entry. -/
theorem token?_brace_lines {entries : List (String × String)} (h : entries ≠ [])
    (rest : List Char) :
    token? '\x7d' ([',', '\n'].intercalate (entries.map line) ++ rest) = none := by
  have hline : ∀ entry rest, token? '\x7d' (line entry ++ rest) = none := by
    rintro ⟨key, value⟩ rest
    have hspace : isBlank ' ' := by decide
    have hquote : isBlank '"' = false := by decide
    rw [line_append, token?_blank hspace, token?_blank hspace, token?_cons hquote]
    rfl
  cases entries with
  | nil => exact absurd rfl h
  | cons entry entries =>
    cases entries with
    | nil =>
      rw [List.map_singleton, List.intercalate_singleton]
      exact hline entry rest
    | cons next entries =>
      rw [List.map_cons, List.map_cons, List.intercalate_cons_cons, List.append_assoc,
        List.append_assoc]
      exact hline entry _

/-- A written file is read back. -/
theorem read_write (entries : List (String × String)) :
    read (write entries).toList = some entries := by
  have hbreak : isBlank '\n' := by decide
  have hbrace : isBlank '\x7b' = false := by decide
  by_cases hnil : entries = []
  · subst hnil
    rfl
  · unfold read
    rw [toList_write hnil, token?_cons hbrace]
    simp only [if_true, Option.bind_eq_bind, Option.bind_some, token?_blank hbreak,
      token?_brace_lines hnil, readEntries_blank hbreak, readEntries_lines hnil]
    rfl

end CoinSpend.StoreFile
