import CoinSpend.Proofs.Wire.Reads
import Mathlib

/-!
# The forms of a value

A value may be read off several byte strings: its forms. A faithful reader reads a form of the value
off the front of the bytes, so that the forms of a composite value are put together from the forms
of its fields. What is written can then be compared with what was read, field by field.

Results:
* `Faithful.bind`, `Faithful.replicate`: faithful readers in sequence are faithful.
* `Reads.apply_eq_ok_iff`: what a faithful reader leaves unread.
* `Reads.bind_iff`, `Reads.replicate_iff`: the forms of a value that is read in parts.
* `Shortens.append`, `Shortens.flatten`: bytes with shorter parts are shorter.
-/

namespace CoinSpend

/-- Whatever the reader reads, it takes a form of it off the front of the bytes. -/
class Faithful {α : Type} (reader : Reader α) : Prop where
  exists_form : ∀ {cursor cursor' : Cursor} {a : α}, reader cursor = .ok (a, cursor') →
    ∃ taken, Reads reader taken a ∧ cursor.rest = taken ++ cursor'.rest

variable {α β : Type}

/-! ## Readers in sequence -/

namespace Faithful

instance pure (a : α) : Faithful (Pure.pure a) where
  exists_form h := by
    cases h
    exact ⟨[], Reads.pure a, rfl⟩

instance bind {reader : Reader α} {next : α → Reader β} [Faithful reader]
    [∀ a, Faithful (next a)] : Faithful (reader >>= next) where
  exists_form h := by
    obtain ⟨⟨a, between⟩, ha, hb⟩ := bind_eq_ok_iff.mp h
    obtain ⟨as, has, hfront⟩ := exists_form ha
    obtain ⟨bs, hbs, hback⟩ := exists_form hb
    exact ⟨as ++ bs, has.bind hbs, by rw [hfront, hback, List.append_assoc]⟩

instance ite {p : Prop} [Decidable p] {reader reader' : Reader α} [Faithful reader]
    [Faithful reader'] : Faithful (if p then reader else reader') := by
  split <;> infer_instance

/-- A check reads nothing. -/
instance lift (checked : Except Error α) : Faithful (liftM checked) where
  exists_form h := by
    cases checked with
    | error e => cases h
    | ok a => exact (pure a).exists_form h

instance replicate (reader : Reader α) [Faithful reader] (n : ℕ) :
    Faithful (Reader.replicate n reader) := by
  induction n with
  | zero => exact pure []
  | succ n ih => exact bind

end Faithful

namespace Reads

/-- What a reader reads off the front of the bytes. -/
theorem apply_eq_ok_iff {reader : Reader α} [Faithful reader] {bytes rest : Bytes}
    {place place' : ℕ} {a : α} : reader ⟨bytes, place⟩ = .ok (a, ⟨rest, place'⟩) ↔
      ∃ form, Reads reader form a ∧ form ++ rest = bytes ∧ place + form.length = place' := by
  constructor
  · intro h
    obtain ⟨form, hform, hbytes⟩ := Faithful.exists_form h
    dsimp only at hbytes
    rw [hbytes, hform, Except.ok.injEq, Prod.mk.injEq, Cursor.mk.injEq] at h
    exact ⟨form, hform, hbytes.symm, h.2.2⟩
  · rintro ⟨form, hform, rfl, rfl⟩
    exact hform rest place

/-- The parts of a form are forms of the parts. -/
theorem bind_iff {reader : Reader α} {next : α → Reader β} [Faithful reader]
    [∀ a, Faithful (next a)] {bytes : Bytes} {b : β} :
    Reads (reader >>= next) bytes b ↔
      ∃ a as bs, Reads reader as a ∧ Reads (next a) bs b ∧ as ++ bs = bytes := by
  constructor
  · intro h
    obtain ⟨⟨a, cursor⟩, ha, hb⟩ := bind_eq_ok_iff.mp (h [] 0)
    obtain ⟨as, has, htaken⟩ := Faithful.exists_form ha
    obtain ⟨bs, hbs, hrest⟩ := Faithful.exists_form hb
    rw [List.append_nil] at htaken hrest
    exact ⟨a, as, bs, has, hbs, by rw [← hrest, ← htaken]⟩
  · rintro ⟨a, as, bs, has, hbs, rfl⟩
    exact has.bind hbs

theorem pure_iff {a b : α} {bytes : Bytes} :
    Reads (Pure.pure a) bytes b ↔ bytes = [] ∧ a = b := by
  constructor
  · intro h
    have hread := h [] 0
    rw [List.append_nil] at hread
    change Except.ok _ = Except.ok _ at hread
    rw [Except.ok.injEq, Prod.mk.injEq, Cursor.mk.injEq] at hread
    exact ⟨hread.2.1, hread.1⟩
  · rintro ⟨rfl, rfl⟩
    exact pure a

theorem map_iff {reader : Reader α} [Faithful reader] {f : α → β} {bytes : Bytes} {b : β} :
    Reads (reader >>= fun a => Pure.pure (f a)) bytes b ↔
      ∃ a, Reads reader bytes a ∧ f a = b := by
  constructor
  · intro h
    obtain ⟨a, as, bs, has, hbs, rfl⟩ := bind_iff.mp h
    obtain ⟨rfl, rfl⟩ := pure_iff.mp hbs
    rw [List.append_nil]
    exact ⟨a, has, rfl⟩
  · rintro ⟨a, ha, rfl⟩
    exact ha.map f

/-- What a check lets through was taken by the reader before it. -/
theorem bindLift_iff {reader : Reader α} [Faithful reader] {check : α → Except Error β}
    {bytes : Bytes} {b : β} : Reads (reader >>= fun a => liftM (check a)) bytes b ↔
      ∃ a, Reads reader bytes a ∧ check a = .ok b := by
  constructor
  · intro h
    obtain ⟨a, as, bs, has, hcheck, rfl⟩ := bind_iff.mp h
    cases hvalue : check a with
    | error e =>
      rw [hvalue] at hcheck
      cases hcheck [] 0
    | ok b' =>
      rw [hvalue] at hcheck
      obtain ⟨rfl, rfl⟩ := pure_iff.mp hcheck
      rw [List.append_nil]
      exact ⟨a, has, hvalue⟩
  · rintro ⟨a, ha, hcheck⟩
    exact ha.bindLift hcheck

/-- The forms of a list of values are forms of the values one after another. -/
theorem replicate_iff {reader : Reader α} [Faithful reader] {n : ℕ} {bytes : Bytes}
    {values : List α} : Reads (Reader.replicate n reader) bytes values ↔
      values.length = n ∧
        ∃ pieces, List.Forall₂ (fun a piece => Reads reader piece a) values pieces ∧
          pieces.flatten = bytes := by
  constructor
  · intro h
    induction n generalizing bytes values with
    | zero =>
      obtain ⟨rfl, rfl⟩ := pure_iff.mp h
      exact ⟨rfl, [], .nil, rfl⟩
    | succ n ih =>
      obtain ⟨head, piece, bs, hpiece, htail, rfl⟩ := bind_iff.mp h
      obtain ⟨tail, hbs, rfl⟩ := map_iff.mp htail
      obtain ⟨rfl, pieces, hpieces, rfl⟩ := ih hbs
      exact ⟨rfl, piece :: pieces, .cons hpiece hpieces, rfl⟩
  · rintro ⟨rfl, pieces, hpieces, rfl⟩
    exact replicate hpieces.flip

end Reads

/-! ## Fields of fixed width -/

namespace Faithful

instance take (n : ℕ) : Faithful (Reader.take n) where
  exists_form {cursor cursor' a} h := by
    unfold Reader.take at h
    split at h
    · next hlength =>
      cases h
      exact ⟨_, Reads.take ⟨_, hlength⟩, (List.take_append_drop n cursor.rest).symm⟩
    · cases h

instance bytes (n : ℕ) : Faithful (Reader.bytes n) :=
  inferInstanceAs (Faithful (Reader.take n >>= fun taken => Pure.pure taken.val))

instance number (n : ℕ) : Faithful (Reader.number n) :=
  inferInstanceAs (Faithful (Reader.take n >>= fun taken => Pure.pure (Bytes.toNatLE taken.val)))

instance byte : Faithful Reader.byte :=
  inferInstanceAs (Faithful (Reader.number 1 >>= fun value => Pure.pure (UInt8.ofNat value)))

instance uint32 : Faithful Reader.uint32 :=
  inferInstanceAs (Faithful (Reader.number 4 >>= fun value => Pure.pure (UInt32.ofNat value)))

instance uint64 : Faithful Reader.uint64 :=
  inferInstanceAs (Faithful (Reader.number 8 >>= fun value => Pure.pure (UInt64.ofNat value)))

end Faithful

namespace Reads

theorem take_iff {n : ℕ} {bytes : Bytes} {taken : FixedBytes n} :
    Reads (Reader.take n) bytes taken ↔ bytes = taken.val := by
  constructor
  · intro h
    have hread := h [] 0
    rw [List.append_nil] at hread
    unfold Reader.take at hread
    split at hread
    · rw [Except.ok.injEq, Prod.mk.injEq, Cursor.mk.injEq] at hread
      obtain ⟨rfl, hdrop, -⟩ := hread
      have hparts := List.take_append_drop n bytes
      rw [hdrop, List.append_nil] at hparts
      exact hparts.symm
    · cases hread
  · rintro rfl
    exact take taken

theorem bytes_iff {n : ℕ} {bytes body : Bytes} :
    Reads (Reader.bytes n) bytes body ↔ bytes = body ∧ body.length = n := by
  constructor
  · intro h
    obtain ⟨taken, htaken, rfl⟩ := map_iff.mp h
    exact ⟨take_iff.mp htaken, taken.property⟩
  · rintro ⟨rfl, rfl⟩
    exact Reads.bytes bytes

theorem number_iff {n value : ℕ} {bytes : Bytes} :
    Reads (Reader.number n) bytes value ↔
      value < 256 ^ n ∧ bytes = Bytes.ofNatLE n value := by
  constructor
  · intro h
    obtain ⟨taken, htaken, rfl⟩ := map_iff.mp h
    have hlt := Bytes.toNatLE_lt taken.val
    have hdigits := Bytes.ofNatLE_toNatLE taken.val
    rw [taken.property] at hlt hdigits
    exact ⟨hlt, by rw [hdigits, take_iff.mp htaken]⟩
  · rintro ⟨hlt, rfl⟩
    exact number hlt

theorem byte_iff {code : UInt8} {bytes : Bytes} :
    Reads Reader.byte bytes code ↔ bytes = [code] := by
  constructor
  · intro h
    obtain ⟨value, hvalue, rfl⟩ := map_iff.mp h
    rw [(number_iff.mp hvalue).2]
    rfl
  · rintro rfl
    exact byte code

theorem uint32_iff {value : UInt32} {bytes : Bytes} :
    Reads Reader.uint32 bytes value ↔ bytes = Bytes.ofNatLE 4 value.toNat := by
  constructor
  · intro h
    obtain ⟨number, hnumber, rfl⟩ := map_iff.mp h
    obtain ⟨hlt, rfl⟩ := number_iff.mp hnumber
    have hfits : number < 2 ^ 32 := hlt
    rw [UInt32.toNat_ofNat', Nat.mod_eq_of_lt hfits]
  · rintro rfl
    exact uint32 value

theorem uint64_iff {value : UInt64} {bytes : Bytes} :
    Reads Reader.uint64 bytes value ↔ bytes = Bytes.ofNatLE 8 value.toNat := by
  constructor
  · intro h
    obtain ⟨number, hnumber, rfl⟩ := map_iff.mp h
    obtain ⟨hlt, rfl⟩ := number_iff.mp hnumber
    have hfits : number < 2 ^ 64 := hlt
    rw [UInt64.toNat_ofNat', Nat.mod_eq_of_lt hfits]
  · rintro rfl
    exact uint64 value

end Reads

/-! ## Shorter bytes -/

/-- Written bytes are those that were read, or fewer. -/
def Shortens (written read : Bytes) : Prop := written = read ∨ written.length < read.length

namespace Shortens

theorem refl (bytes : Bytes) : Shortens bytes bytes := .inl rfl

theorem length_le {written read : Bytes} (h : Shortens written read) :
    written.length ≤ read.length := by
  rcases h with rfl | hlt
  · exact Nat.le_refl _
  · exact Nat.le_of_lt hlt

/-- What is not shorter is the same. -/
theorem eq_of_length_le {written read : Bytes} (h : Shortens written read)
    (hle : read.length ≤ written.length) : written = read := by
  rcases h with heq | hlt
  · exact heq
  · omega

theorem append {written written' read read' : Bytes} (h : Shortens written read)
    (h' : Shortens written' read') : Shortens (written ++ written') (read ++ read') := by
  have hle := h.length_le
  have hle' := h'.length_le
  rcases h with rfl | hlt
  · rcases h' with rfl | hlt'
    · exact refl _
    · right
      simp only [List.length_append]
      omega
  · right
    simp only [List.length_append]
    omega

/-- Bytes are shorter if their parts, one for each value, are. -/
theorem flatten {Read Written : α → Bytes → Prop} {values : List α} {reads writtens : List Bytes}
    (hreads : List.Forall₂ Read values reads) (hwrittens : List.Forall₂ Written values writtens)
    (h : ∀ a read written, Read a read → Written a written → Shortens written read) :
    Shortens writtens.flatten reads.flatten := by
  induction hreads generalizing writtens with
  | nil =>
    cases hwrittens
    exact refl []
  | cons hread _ ih =>
    obtain ⟨written, writtens, hwritten, hrest, rfl⟩ := List.forall₂_cons_left_iff.mp hwrittens
    exact (h _ _ _ hread hwritten).append (ih hrest)

end Shortens

/-- What is written for a value that was read is a form of it: the one that was read, or one of
fewer bytes. -/
def WritesShortest (reader : Reader α) (write : α → Except Error Bytes) : Prop :=
  ∀ a read written, Reads reader read a → write a = .ok written →
    Reads reader written a ∧ Shortens written read

end CoinSpend
