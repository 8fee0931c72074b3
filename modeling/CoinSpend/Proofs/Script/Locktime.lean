import CoinSpend.Proofs.Script.Number
import CoinSpend.Proofs.Script.Unlimited
import Mathlib

/-!
# Locktimes that scripts require

A script requires a locktime of its transaction, or an age of the output that is spent, by the
number on top of the stack, which stays there. A locktime is a height or a time, and an age counts
blocks or seconds; either is met only by one of its own kind that is not less. The kind and the
value of an age are two fields of one number, and comparing them one after the other is the same as
comparing the number with all other bits masked out.

Results:
* `Operation.and_ageMask_lt_iff`, `Operation.and_ageMask_le_iff`: ages under their mask.
* `Operation.checkLocktimeOf_eq_ok_iff`, `Operation.checkSequenceOf_eq_ok_iff`: the checks.
* `Opcode.execute_locktimes`: when the two opcodes succeed, and that more time does no harm.
-/

namespace CoinSpend

/-! ## Ages under their mask -/

namespace Operation

/-- The bits of a sequence number that make up an age: its kind and its low 16 bits. -/
def ageMask : ℕ := 0x0040ffff

/-- Ages from this one on are in seconds. -/
def ageThreshold : ℕ := 0x00400000

theorem and_ageMask (n : ℕ) :
    n &&& ageMask = 2 ^ 22 * (n.testBit 22).toNat + n % 2 ^ 16 := by
  have hlow : n % 2 ^ 16 < 2 ^ 22 := (Nat.mod_lt n (by decide)).trans (by decide)
  calc n &&& ageMask = n &&& (2 ^ 22 ||| (2 ^ 16 - 1)) := rfl
    _ = n &&& 2 ^ 22 ||| n &&& (2 ^ 16 - 1) := Nat.and_or_distrib_left ..
    _ = 2 ^ 22 * (n.testBit 22).toNat ||| n % 2 ^ 16 := by
      rw [Nat.and_two_pow, Nat.and_two_pow_sub_one_eq_mod, Nat.mul_comm]
    _ = 2 ^ 22 * (n.testBit 22).toNat + n % 2 ^ 16 := (Nat.two_pow_add_eq_or_of_lt hlow _).symm

theorem and_ageMask_lt_iff {n : ℕ} : n &&& ageMask < ageThreshold ↔ n.testBit 22 = false := by
  rw [and_ageMask]
  unfold ageThreshold
  cases n.testBit 22
  · simp only [Bool.toNat_false, iff_true]
    omega
  · simp

/-- Of two ages of the same kind, the low 16 bits decide. -/
theorem and_ageMask_le_iff {m n : ℕ} (h : m.testBit 22 = n.testBit 22) :
    m &&& ageMask ≤ n &&& ageMask ↔ m % 2 ^ 16 ≤ n % 2 ^ 16 := by
  rw [and_ageMask, and_ageMask, h]
  omega

/-! ## The checks -/

/-- The transaction has a locktime of the required kind, which is not less, and the input lets it
count. -/
structure MeetsLocktime (ctx : Context) (required : ℕ) : Prop where
  counts : ctx.sequence ≠ 0xffffffff
  kind : required < 500000000 ↔ ctx.locktime.toNat < 500000000
  le : required ≤ ctx.locktime.toNat

/-- The input has an age of the required kind, which is not less, and the transaction lets it count.
-/
structure MeetsAge (ctx : Context) (required : ℕ) : Prop where
  version : 2 ≤ ctx.version
  counts : ctx.sequence.toNat.testBit 31 = false
  kind : required &&& ageMask < ageThreshold ↔ ctx.sequence.toNat &&& ageMask < ageThreshold
  le : required &&& ageMask ≤ ctx.sequence.toNat &&& ageMask

variable {ctx : Context} {s t : Stack}

/-- The kind and the value of an age, compared one after the other. -/
theorem meetsAge_iff {required : ℕ} : MeetsAge ctx required ↔
    2 ≤ ctx.version ∧ ctx.sequence.toNat.testBit 31 = false ∧
      required.testBit 22 = ctx.sequence.toNat.testBit 22 ∧
      required % 2 ^ 16 ≤ ctx.sequence.toNat % 2 ^ 16 := by
  constructor
  · rintro ⟨hversion, hcounts, hkind, hle⟩
    rw [and_ageMask_lt_iff, and_ageMask_lt_iff, Bool.coe_false_iff_false] at hkind
    have hkind := Bool.not_inj hkind
    exact ⟨hversion, hcounts, hkind, (and_ageMask_le_iff hkind).mp hle⟩
  · rintro ⟨hversion, hcounts, hkind, hle⟩
    refine ⟨hversion, hcounts, ?_, (and_ageMask_le_iff hkind).mpr hle⟩
    rw [and_ageMask_lt_iff, and_ageMask_lt_iff, hkind]

theorem top_zero_eq_ok_iff {top : Bytes} :
    s.top 0 = .ok top ↔ ∃ rest, s.main = top :: rest := by
  unfold Stack.top
  cases s.main <;> simp

theorem checkLocktimeOf_eq_ok_iff : checkLocktimeOf ctx s = .ok t ↔ t = s ∧
    ∃ top rest, ∃ required : ℕ, s.main = top :: rest ∧
      ScriptNumber.decode 5 top = .ok (required : ℤ) ∧ MeetsLocktime ctx required := by
  constructor
  · intro h
    obtain rfl := eq_of_checkLocktimeOf h
    obtain ⟨top, htop, h⟩ := bind_eq_ok_iff.mp h
    obtain ⟨rest, hmain⟩ := top_zero_eq_ok_iff.mp htop
    obtain ⟨number, hnumber, h⟩ := bind_eq_ok_iff.mp h
    unfold locktimeThreshold at h
    simp only at h
    split_ifs at h with hnegative hfinal hkind hless
    obtain ⟨required, rfl⟩ := Int.eq_ofNat_of_zero_le (by omega : 0 ≤ number)
    exact ⟨rfl, top, rest, required, hmain, hnumber, hfinal, by omega, by omega⟩
  · rintro ⟨rfl, top, rest, required, hmain, hnumber, hcounts, hkind, hle⟩
    refine bind_eq_ok_iff.mpr ⟨top, top_zero_eq_ok_iff.mpr ⟨rest, hmain⟩,
      bind_eq_ok_iff.mpr ⟨required, hnumber, ?_⟩⟩
    unfold locktimeThreshold
    simp only
    rw [if_neg (by omega), if_neg hcounts, if_neg (by omega), if_neg (by omega)]

theorem checkSequenceOf_eq_ok_iff : checkSequenceOf ctx s = .ok t ↔ t = s ∧
    ∃ top rest, ∃ required : ℕ, s.main = top :: rest ∧
      ScriptNumber.decode 5 top = .ok (required : ℤ) ∧
      (required.testBit 31 = true ∨ MeetsAge ctx required) := by
  constructor
  · intro h
    obtain rfl := eq_of_checkSequenceOf h
    obtain ⟨top, htop, h⟩ := bind_eq_ok_iff.mp h
    obtain ⟨rest, hmain⟩ := top_zero_eq_ok_iff.mp htop
    obtain ⟨number, hnumber, h⟩ := bind_eq_ok_iff.mp h
    simp only at h
    split_ifs at h with hnegative hdisabled hcounts hkind hless
    all_goals obtain ⟨required, rfl⟩ := Int.eq_ofNat_of_zero_le (by omega : 0 ≤ number)
    · exact ⟨rfl, top, rest, required, hmain, hnumber, .inl hdisabled⟩
    · rw [not_or, UInt32.not_lt, Bool.not_eq_true] at hcounts
      exact ⟨rfl, top, rest, required, hmain, hnumber, .inr (meetsAge_iff.mpr
        ⟨hcounts.1, hcounts.2, not_not.mp hkind, Nat.le_of_not_lt hless⟩)⟩
  · rintro ⟨rfl, top, rest, required, hmain, hnumber, hage⟩
    refine bind_eq_ok_iff.mpr ⟨top, top_zero_eq_ok_iff.mpr ⟨rest, hmain⟩,
      bind_eq_ok_iff.mpr ⟨required, hnumber, ?_⟩⟩
    rw [meetsAge_iff] at hage
    simp only [Int.toNat_natCast]
    split_ifs with hnegative hdisabled hcounts hkind hless
    · omega
    · rfl
    · obtain ⟨hversion, henabled, -⟩ := hage.resolve_left hdisabled
      exact absurd hcounts (not_or.mpr ⟨UInt32.not_lt.mpr hversion, Bool.not_eq_true _ ▸ henabled⟩)
    · exact absurd (hage.resolve_left hdisabled).2.2.1 hkind
    · exact absurd hless (Nat.not_lt.mpr (hage.resolve_left hdisabled).2.2.2)
    · rfl

/-! ## More time -/

theorem MeetsLocktime.mono {required : ℕ} {later : UInt32} (h : MeetsLocktime ctx required)
    (hle : ctx.locktime ≤ later) (hkind : ctx.locktime < 500000000 ↔ later < 500000000) :
    MeetsLocktime { ctx with locktime := later } required := by
  rw [UInt32.lt_iff_toNat_lt, UInt32.lt_iff_toNat_lt] at hkind
  exact ⟨h.counts, h.kind.trans hkind, h.le.trans (UInt32.le_iff_toNat_le.mp hle)⟩

/-- Numbers with the same upper half have the same bits there. -/
theorem testBit_eq_of_shiftRight {a b : UInt32} (h : a >>> 16 = b >>> 16) (i : ℕ) :
    a.toNat.testBit (16 + i) = b.toNat.testBit (16 + i) := by
  have hupper : a.toNat >>> 16 = b.toNat >>> 16 := by
    simpa [UInt32.toNat_shiftRight] using congrArg UInt32.toNat h
  rw [← Nat.testBit_shiftRight, hupper, Nat.testBit_shiftRight]

theorem MeetsAge.mono {required : ℕ} {later : UInt32} (h : MeetsAge ctx required)
    (hle : ctx.sequence ≤ later) (hupper : ctx.sequence >>> 16 = later >>> 16) :
    MeetsAge { ctx with sequence := later } required := by
  obtain ⟨hversion, hcounts, hkind, hless⟩ := meetsAge_iff.mp h
  refine meetsAge_iff.mpr ⟨hversion, ?_, ?_, hless.trans ?_⟩
  · rw [← hcounts]
    exact (testBit_eq_of_shiftRight hupper 15).symm
  · rw [hkind]
    exact testBit_eq_of_shiftRight hupper 6
  · have hdiv : ctx.sequence.toNat / 2 ^ 16 = later.toNat / 2 ^ 16 := by
      simpa [UInt32.toNat_shiftRight, Nat.shiftRight_eq_div_pow] using congrArg UInt32.toNat hupper
    have hle := UInt32.le_iff_toNat_le.mp hle
    dsimp only
    omega

end Operation

namespace Opcode

/-- Requires a locktime of the transaction. -/
def checkLocktime : UInt8 := 0xb1

/-- Requires an age of the spent output. -/
def checkSequence : UInt8 := 0xb2

/-- The check of a locktime succeeds exactly if the top writes, in at most five bytes, a number that
is not negative, of the same kind as the locktime of the transaction and not greater, where the
input is not final. The check of an age succeeds exactly if the top writes such a number which has
the bit set that turns the check off, or else the version is 2 at least, the same bit of the
sequence number is clear, and under the mask of ages the number is of the same kind as the sequence
number and not greater. Neither changes the stacks. A check that succeeds does so for every later
locktime of the same kind, or every sequence number with the same upper and no smaller lower half.
-/
theorem execute_locktimes (ctx : Context) (s : Stack) :
    (∀ t, execute ctx checkLocktime s = .ok t ↔ t = s ∧
      ∃ top rest, ∃ required : ℕ, s.main = top :: rest ∧
        ScriptNumber.decode 5 top = .ok (required : ℤ) ∧
        Operation.MeetsLocktime ctx required) ∧
    (∀ t, execute ctx checkSequence s = .ok t ↔ t = s ∧
      ∃ top rest, ∃ required : ℕ, s.main = top :: rest ∧
        ScriptNumber.decode 5 top = .ok (required : ℤ) ∧
        (required.testBit 31 = true ∨ Operation.MeetsAge ctx required)) ∧
    (∀ later t, ctx.locktime ≤ later → (ctx.locktime < 500000000 ↔ later < 500000000) →
      execute ctx checkLocktime s = .ok t →
      execute { ctx with locktime := later } checkLocktime s = .ok t) ∧
    ∀ later t, ctx.sequence ≤ later → ctx.sequence >>> 16 = later >>> 16 →
      execute ctx checkSequence s = .ok t →
      execute { ctx with sequence := later } checkSequence s = .ok t := by
  refine ⟨fun t => Operation.checkLocktimeOf_eq_ok_iff,
    fun t => Operation.checkSequenceOf_eq_ok_iff, ?_, ?_⟩
  · intro later t hle hkind h
    obtain ⟨rfl, top, rest, required, hmain, hnumber, hmeets⟩ :=
      Operation.checkLocktimeOf_eq_ok_iff.mp h
    exact Operation.checkLocktimeOf_eq_ok_iff.mpr
      ⟨rfl, top, rest, required, hmain, hnumber, hmeets.mono hle hkind⟩
  · intro later t hle hupper h
    obtain ⟨rfl, top, rest, required, hmain, hnumber, hage⟩ :=
      Operation.checkSequenceOf_eq_ok_iff.mp h
    exact Operation.checkSequenceOf_eq_ok_iff.mpr ⟨rfl, top, rest, required, hmain, hnumber,
      hage.imp_right fun hmeets => hmeets.mono hle hupper⟩

/-- The first locktime that is a time, and an age in seconds that is required by a number of 39
bits, of which the upper ones are masked out. Both are met, and are met by the greatest ones of
their kinds as well. -/
theorem execute_locktimes_greatest :
    execute ⟨0, 1, 500000000, 0⟩ checkLocktime ⟨[[0x00, 0x65, 0xcd, 0x1d]], []⟩ =
        .ok ⟨[[0x00, 0x65, 0xcd, 0x1d]], []⟩ ∧
      execute ⟨0, 1, 0xffffffff, 0⟩ checkLocktime ⟨[[0x00, 0x65, 0xcd, 0x1d]], []⟩ =
        .ok ⟨[[0x00, 0x65, 0xcd, 0x1d]], []⟩ ∧
      execute ⟨0, 2, 0, 0x0040000a⟩ checkSequence ⟨[[0x0a, 0x00, 0x40, 0x00, 0x40]], []⟩ =
        .ok ⟨[[0x0a, 0x00, 0x40, 0x00, 0x40]], []⟩ ∧
      execute ⟨0, 2, 0, 0x0040ffff⟩ checkSequence ⟨[[0x0a, 0x00, 0x40, 0x00, 0x40]], []⟩ =
        .ok ⟨[[0x0a, 0x00, 0x40, 0x00, 0x40]], []⟩ := by
  obtain ⟨hlocktime, -, hlater, -⟩ :=
    execute_locktimes ⟨0, 1, 500000000, 0⟩ ⟨[[0x00, 0x65, 0xcd, 0x1d]], []⟩
  obtain ⟨-, hsequence, -, holder⟩ :=
    execute_locktimes ⟨0, 2, 0, 0x0040000a⟩ ⟨[[0x0a, 0x00, 0x40, 0x00, 0x40]], []⟩
  have htime := (hlocktime _).mpr
    ⟨rfl, _, [], 500000000, rfl, rfl, by decide, by decide, by decide⟩
  have hage := (hsequence _).mpr
    ⟨rfl, _, [], 0x400040000a, rfl, rfl, .inr ⟨by decide, by decide, by decide, by decide⟩⟩
  exact ⟨htime, hlater 0xffffffff _ (by decide) (by decide) htime, hage,
    holder 0x0040ffff _ (by decide) (by decide) hage⟩

end Opcode

end CoinSpend
