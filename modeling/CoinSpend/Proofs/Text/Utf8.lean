import CoinSpend.Bytes
import Mathlib

/-!
# The order of texts

Texts are ordered character by character. UTF-8 was made so that this is also the order of their
bytes: the first byte of a character tells how many follow it, more for higher characters, and the
bits of a character follow from the highest ones on.

Results:
* `Utf8.utf8EncodeChar_eq`: the bytes of a character, by their number.
* `Utf8.utf8EncodeChar_lt`: a lower character has lower bytes, whatever stands behind them.
* `Utf8.bytes_lt_iff`: texts have the order of their bytes.
-/

namespace CoinSpend.Utf8

/-- The bytes of a text. -/
def bytes (text : String) : Bytes := text.toUTF8.data.toList

theorem bytes_eq_flatMap (text : String) :
    bytes text = text.toList.flatMap String.utf8EncodeChar := by
  unfold bytes
  rw [String.toUTF8_eq_toByteArray, ← String.utf8Encode_toList]
  exact List.toList_data_toByteArray

/-! ## Characters -/

/-- How many bytes stand behind the first one of a character. -/
def extra (n : ℕ) : ℕ :=
  if n ≤ 0x7f then 0 else if n ≤ 0x7ff then 1 else if n ≤ 0xffff then 2 else 3

/-- The first byte of a character: its highest bits, and a mark that tells how many bytes stand
behind it. -/
def lead (n : ℕ) : ℕ :=
  if n ≤ 0x7f then n else if n ≤ 0x7ff then n / 64 + 0xc0
  else if n ≤ 0xffff then n / 64 ^ 2 + 0xe0 else n / 64 ^ 3 + 0xf0

/-- The bytes behind the first one, with six bits in each. -/
def continuation : ℕ → ℕ → Bytes
  | 0, _ => []
  | k + 1, n => UInt8.ofNat (n / 64 ^ k % 64 + 0x80) :: continuation k n

theorem toNat_lt (c : Char) : c.toNat < 0x110000 := by
  rcases c.valid with hvalid | ⟨-, hvalid⟩
  · exact hvalid.trans (by decide)
  · exact hvalid

theorem utf8EncodeChar_eq (c : Char) : String.utf8EncodeChar c =
    UInt8.ofNat (lead c.toNat) :: continuation (extra c.toNat) c.toNat := by
  have hmax : c.val.toNat < 0x110000 := toNat_lt c
  unfold String.utf8EncodeChar lead extra Char.toNat
  dsimp only
  -- The highest bits fit behind the mark, so that none of them is cut off.
  split_ifs
  · rfl
  · rw [Nat.mod_eq_of_lt (show c.val.toNat / 64 < 32 by omega)]
    simp [continuation]
  · rw [Nat.mod_eq_of_lt (show c.val.toNat / 4096 < 16 by omega)]
    simp [continuation]
  · rw [Nat.mod_eq_of_lt (show c.val.toNat / 262144 < 8 by omega)]
    simp [continuation]

theorem lead_lt {n : ℕ} (h : n < 0x110000) : lead n < 256 := by
  unfold lead
  split_ifs <;> omega

/-- The first bytes decide, unless they tell the same number of bytes and have the same bits. -/
theorem lead_mono {m n : ℕ} (h : m < n) : lead m < lead n ∨
    lead m = lead n ∧ extra m = extra n ∧ m / 64 ^ extra m = n / 64 ^ extra m := by
  unfold lead extra
  split_ifs <;> omega

theorem continuation_lt {m n k : ℕ} (h : m < n) (hhigh : m / 64 ^ k = n / 64 ^ k) (xs ys : Bytes) :
    continuation k m ++ xs < continuation k n ++ ys := by
  induction k with
  | zero => omega
  | succ k ih =>
    have hle : m / 64 ^ k ≤ n / 64 ^ k := Nat.div_le_div_right h.le
    rw [pow_succ, ← Nat.div_div_eq_div_mul, ← Nat.div_div_eq_div_mul] at hhigh
    rw [continuation, continuation, List.cons_append, List.cons_append, List.cons_lt_cons_iff,
      UInt8.lt_iff_toNat_lt, UInt8.toNat_ofNat', UInt8.toNat_ofNat']
    rcases hle.lt_or_eq with hlt | heq
    · left
      omega
    · rw [heq]
      exact .inr ⟨rfl, ih heq⟩

theorem utf8EncodeChar_lt {c d : Char} (h : c < d) (xs ys : Bytes) :
    String.utf8EncodeChar c ++ xs < String.utf8EncodeChar d ++ ys := by
  have hlt : c.toNat < d.toNat := h
  have hc := lead_lt (toNat_lt c)
  have hd := lead_lt (toNat_lt d)
  rw [utf8EncodeChar_eq, utf8EncodeChar_eq, List.cons_append, List.cons_append,
    List.cons_lt_cons_iff, UInt8.lt_iff_toNat_lt, UInt8.toNat_ofNat_of_lt' hc,
    UInt8.toNat_ofNat_of_lt' hd]
  rcases lead_mono hlt with hlead | ⟨hlead, hextra, hhigh⟩
  · exact .inl hlead
  · rw [hlead, ← hextra]
    exact .inr ⟨rfl, continuation_lt hlt hhigh xs ys⟩

/-! ## Texts -/

theorem flatMap_utf8EncodeChar_lt {cs ds : List Char} (h : cs < ds) :
    cs.flatMap String.utf8EncodeChar < ds.flatMap String.utf8EncodeChar := by
  induction cs generalizing ds with
  | nil =>
    cases ds with
    | nil => exact absurd h (List.not_lt_nil [])
    | cons d ds =>
      rw [List.flatMap_nil, List.flatMap_cons, utf8EncodeChar_eq]
      exact List.nil_lt_cons _ _
  | cons c cs ih =>
    cases ds with
    | nil => exact absurd h (List.not_lt_nil _)
    | cons d ds =>
      rw [List.flatMap_cons, List.flatMap_cons]
      rcases List.cons_lt_cons_iff.mp h with hcd | ⟨rfl, hrest⟩
      · exact utf8EncodeChar_lt hcd _ _
      · exact List.append_left_lt (ih hrest)

theorem bytes_lt_iff {a b : String} : bytes a < bytes b ↔ a < b := by
  have hmono : ∀ {a b : String}, a < b → bytes a < bytes b := by
    intro a b hab
    rw [bytes_eq_flatMap, bytes_eq_flatMap]
    exact flatMap_utf8EncodeChar_lt (String.lt_iff_toList_lt.mp hab)
  refine ⟨fun hbytes => ?_, hmono⟩
  rcases lt_trichotomy a b with hlt | rfl | hgt
  · exact hlt
  · exact absurd hbytes (List.lt_irrefl _)
  · exact absurd hbytes (List.lt_asymm (hmono hgt))

theorem bytes_le_iff {a b : String} : bytes a ≤ bytes b ↔ a ≤ b :=
  (not_congr bytes_lt_iff).trans not_lt

end CoinSpend.Utf8
