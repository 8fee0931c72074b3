import CoinSpend.Proofs.Wire.Forms
import CoinSpend.Wire.Reader
import Mathlib

/-!
# Where a reader stands

A `Reader` gives up its unread bytes when it refuses, so that nothing is left to say where it stood.
A `Scanner` goes over data that stay as they are. Where it stands is kept behind a refusal too, and
so is every place where it stood before. A scanner follows a reader if they have the same outcome
and the reader ends where the scanner ends.

What a reader takes is seen from its outcomes alone: the bytes behind do not matter, and none of the
bytes that were taken can be left out at the end.

Results:
* `Follows.take`, `Follows.bind`, `Follows.replicate`: scanners follow readers that are put together
  in the same way, and their places never decrease nor leave the data.
* `SelfDelimiting.of_faithful`: a faithful reader looks at what it takes only.
-/

namespace CoinSpend

variable {α β : Type}

/-! ## Places -/

/-- The place in the data where a reader stands, and those where it stood before, the last one
first. Model of `pos` in `Reader`. -/
structure Trail where
  place : ℕ
  passed : List ℕ
deriving DecidableEq, Repr

namespace Trail

/-- All the places, the last one first. -/
def places (trail : Trail) : List ℕ := trail.place :: trail.passed

/-- The trail behind the next `n` bytes. -/
def advance (trail : Trail) (n : ℕ) : Trail := ⟨trail.place + n, trail.places⟩

/-- The places never decreased, and they are in data of the length, or at their end. -/
structure Within (length : ℕ) (trail : Trail) : Prop where
  ordered : trail.places.Pairwise (· ≥ ·)
  place_le : trail.place ≤ length

/-- No place was beyond the last one. -/
theorem Within.le_place {length : ℕ} {trail : Trail} (h : trail.Within length) {place : ℕ}
    (hplace : place ∈ trail.places) : place ≤ trail.place := by
  rcases List.mem_cons.mp hplace with rfl | hpassed
  · exact Nat.le_refl _
  · exact List.rel_of_pairwise_cons h.ordered hpassed

theorem Within.advance {length n : ℕ} {trail : Trail} (h : trail.Within length)
    (hn : n ≤ length - trail.place) : (trail.advance n).Within length where
  ordered := by
    refine List.pairwise_cons.mpr ⟨fun place hplace => ?_, h.ordered⟩
    exact (h.le_place hplace).trans (Nat.le_add_right trail.place n)
  place_le := by
    have hle := h.place_le
    change trail.place + n ≤ length
    omega

end Trail

/-! ## Scanners -/

/-- A reader over data that stay as they are. Its trail is kept when it refuses. Model of `Reader`.
-/
abbrev Scanner (α : Type) := ReaderT Bytes (ExceptT Error (StateM Trail)) α

namespace Scanner

/-- The outcome of a scanner that goes on from a trail, and the trail it leaves. -/
def run (scanner : Scanner α) (data : Bytes) (trail : Trail) : Except Error α × Trail :=
  scanner data trail

/-- Takes the next `n` bytes of the data, or stays where it is if there are fewer. Model of
`Reader.read_array`. -/
def take (n : ℕ) : Scanner (FixedBytes n) := fun data trail =>
  if h : n ≤ data.length - trail.place then
    (.ok ⟨(data.drop trail.place).take n, by rw [List.length_take, List.length_drop]; omega⟩,
      trail.advance n)
  else (.error (.endOfData n trail.place (data.length - trail.place)), trail)

/-- Takes `n` bytes as a byte string. Model of `Reader.read_bytes`. -/
def bytes (n : ℕ) : Scanner Bytes := do return (← take n).val

/-- Takes a number of `n` bytes, least significant first. -/
def number (n : ℕ) : Scanner ℕ := do return Bytes.toNatLE (← take n).val

/-- Takes one byte. Model of `Reader.read_u8`. -/
def byte : Scanner UInt8 := do return UInt8.ofNat (← number 1)

/-- Takes a 32-bit number, least significant byte first. Model of `Reader.read_u32_le`. -/
def uint32 : Scanner UInt32 := do return UInt32.ofNat (← number 4)

/-- Takes a 64-bit number, least significant byte first. Model of `Reader.read_u64_le`. -/
def uint64 : Scanner UInt64 := do return UInt64.ofNat (← number 8)

/-- Takes `n` values in order. -/
def replicate (n : ℕ) (scanner : Scanner α) : Scanner (List α) :=
  match n with
  | 0 => pure []
  | n + 1 => do
    let head ← scanner
    let tail ← replicate n scanner
    return head :: tail

theorem run_lift (checked : Except Error α) (data : Bytes) (trail : Trail) :
    run (liftM checked) data trail = (checked, trail) := rfl

theorem run_bind_ok {scanner : Scanner α} {data : Bytes} {trail between : Trail} {a : α}
    (h : scanner.run data trail = (.ok a, between)) (next : α → Scanner β) :
    (scanner >>= next).run data trail = (next a).run data between := by
  have hscanner : scanner data trail = (Except.ok a, between) := h
  change (scanner data trail >>= fun p => ExceptT.bindCont (next · data) p.1 p.2) = _
  rw [hscanner]
  rfl

theorem run_bind_error {scanner : Scanner α} {data : Bytes} {trail trail' : Trail} {e : Error}
    (h : scanner.run data trail = (.error e, trail')) (next : α → Scanner β) :
    (scanner >>= next).run data trail = (.error e, trail') := by
  have hscanner : scanner data trail = (Except.error e, trail') := h
  change (scanner data trail >>= fun p => ExceptT.bindCont (next · data) p.1 p.2) = _
  rw [hscanner]
  rfl

end Scanner

/-! ## A reader and its scanner -/

/-- From every place in every data the scanner and the reader have the same outcome. Whatever it is,
the scanner only adds to its trail and keeps it in order within the data, and a reader that does not
refuse stands where the trail ends. -/
def Follows (scanner : Scanner α) (reader : Reader α) : Prop :=
  ∀ (data : Bytes) (trail : Trail), trail.Within data.length →
    ∃ outcome trail', scanner.run data trail = (outcome, trail') ∧
      trail'.Within data.length ∧ trail.places <:+ trail'.places ∧
      reader ⟨data.drop trail.place, trail.place⟩ =
        outcome.map fun a => (a, ⟨data.drop trail'.place, trail'.place⟩)

namespace Follows

theorem take (n : ℕ) : Follows (Scanner.take n) (Reader.take n) := by
  intro data trail hwithin
  rcases Nat.lt_or_ge (data.length - trail.place) n with hshort | hroom
  · refine ⟨.error (.endOfData n trail.place (data.length - trail.place)), trail, ?_, hwithin,
      List.suffix_rfl, ?_⟩
    · exact dif_neg (by omega)
    · rw [← List.length_drop] at hshort ⊢
      exact Reader.take_eq_error_iff.mpr ⟨hshort, rfl⟩
  · have hlength : ((data.drop trail.place).take n).length = n := by
      rw [List.length_take, List.length_drop]
      omega
    refine ⟨.ok ⟨_, hlength⟩, trail.advance n, dif_pos hroom, hwithin.advance hroom,
      List.suffix_cons _ _, ?_⟩
    have hread := Reader.take_append ⟨_, hlength⟩ (data.drop (trail.place + n)) trail.place
    rw [← List.drop_drop, List.take_append_drop] at hread
    rw [hread, List.drop_drop]
    rfl

theorem pure (a : α) : Follows (Pure.pure a) (Pure.pure a) := fun _ trail hwithin =>
  ⟨.ok a, trail, rfl, hwithin, List.suffix_rfl, rfl⟩

theorem lift (checked : Except Error α) : Follows (liftM checked) (liftM checked) := by
  intro data trail hwithin
  refine ⟨checked, trail, Scanner.run_lift checked data trail, hwithin, List.suffix_rfl, ?_⟩
  cases checked with
  | error e => rfl
  | ok a => rfl

/-- Behind a refusal the scanner stays where it is; else the next one goes on from there. -/
theorem bind {scanner : Scanner α} {reader : Reader α} {scanners : α → Scanner β}
    {readers : α → Reader β} (h : Follows scanner reader)
    (hnext : ∀ a, Follows (scanners a) (readers a)) :
    Follows (scanner >>= scanners) (reader >>= readers) := by
  intro data trail hwithin
  obtain ⟨outcome, between, hrun, hbetween, hpassed, hread⟩ := h data trail hwithin
  have hreaders : (reader >>= readers) ⟨data.drop trail.place, trail.place⟩ =
      outcome.map (fun a => (a, ⟨data.drop between.place, between.place⟩)) >>=
        fun p => readers p.1 p.2 := by
    rw [← hread]
    rfl
  cases outcome with
  | error e => exact ⟨.error e, between, Scanner.run_bind_error hrun scanners, hbetween, hpassed,
      hreaders⟩
  | ok a =>
    obtain ⟨outcome, trail', hrun', hwithin', hpassed', hread'⟩ := hnext a data between hbetween
    exact ⟨outcome, trail', (Scanner.run_bind_ok hrun scanners).trans hrun', hwithin',
      hpassed.trans hpassed', hreaders.trans hread'⟩

theorem map {scanner : Scanner α} {reader : Reader α} (h : Follows scanner reader) (f : α → β) :
    Follows (scanner >>= fun a => Pure.pure (f a)) (reader >>= fun a => Pure.pure (f a)) :=
  h.bind fun a => pure (f a)

theorem ite {p : Prop} [Decidable p] {scanner scanner' : Scanner α} {reader reader' : Reader α}
    (h : Follows scanner reader) (h' : Follows scanner' reader') :
    Follows (if p then scanner else scanner') (if p then reader else reader') := by
  by_cases hp : p
  · rw [if_pos hp, if_pos hp]
    exact h
  · rw [if_neg hp, if_neg hp]
    exact h'

/-- By induction on the number of values: the next one is read from where the trail ends. -/
theorem replicate {scanner : Scanner α} {reader : Reader α} (h : Follows scanner reader) (n : ℕ) :
    Follows (Scanner.replicate n scanner) (Reader.replicate n reader) := by
  induction n with
  | zero => exact pure []
  | succ n ih => exact h.bind fun head => ih.map (head :: ·)

theorem bytes (n : ℕ) : Follows (Scanner.bytes n) (Reader.bytes n) :=
  (take n).map Subtype.val

theorem number (n : ℕ) : Follows (Scanner.number n) (Reader.number n) :=
  (take n).map fun taken => Bytes.toNatLE taken.val

theorem byte : Follows Scanner.byte Reader.byte := (number 1).map UInt8.ofNat

theorem uint32 : Follows Scanner.uint32 Reader.uint32 := (number 4).map UInt32.ofNat

theorem uint64 : Follows Scanner.uint64 Reader.uint64 := (number 8).map UInt64.ofNat

end Follows

/-- Takes a number in any of its forms. Model of `Reader.read_varint`. -/
def Varint.readInPlace : Scanner ℕ := do
  let first ← Scanner.byte
  if first = 0xfd then Scanner.number 2
  else if first = 0xfe then Scanner.number 4
  else if first = 0xff then Scanner.number 8
  else return first.toNat

theorem Follows.varint : Follows Varint.readInPlace Varint.read :=
  byte.bind fun first =>
    (number 2).ite ((number 4).ite ((number 8).ite (pure first.toNat)))

/-- Behind the marker of a number that is cut short it has moved by one byte. -/
example : Varint.readInPlace.run [0xfd, 1] ⟨0, []⟩ = (.error (.endOfData 2 1 1), ⟨1, [0]⟩) := by rfl

/-! ## What a reader looks at -/

/-- The bytes are read to their end, as the value. -/
def Fills (reader : Reader α) (bytes : Bytes) (a : α) : Prop :=
  reader.start bytes = .ok (a, ⟨[], bytes.length⟩)

/-- A reader looks at the bytes it takes only, and at each of them. -/
structure SelfDelimiting (reader : Reader α) : Prop where
  /-- It takes bytes off the front. The value does not depend on what stands behind them, nor on the
  place, and without the last of them there is none. -/
  taken : ∀ {bytes : Bytes} {place : ℕ} {a : α} {cursor : Cursor},
    reader ⟨bytes, place⟩ = .ok (a, cursor) →
      ∃ taken ≤ bytes.length, cursor = ⟨bytes.drop taken, place + taken⟩ ∧
        (∀ rest place', reader ⟨bytes.take taken ++ rest, place'⟩ =
          .ok (a, ⟨rest, place' + taken⟩)) ∧
        ∀ cut < taken, ∀ place', ∃ e, reader ⟨bytes.take cut, place'⟩ = .error e
  /-- Of the byte strings that are read to their end none starts another. -/
  prefixFree : ∀ {bytes bytes' : Bytes} {a a' : α}, Fills reader bytes a →
    Fills reader bytes' a' → bytes <+: bytes' → bytes = bytes' ∧ a = a'
  /-- Values whose bytes stand one after another are read one after another. -/
  sequence : ∀ {pieces : List Bytes} {values : List α}, List.Forall₂ (Fills reader) pieces values →
    ∀ rest, (Reader.replicate values.length reader).start (pieces.flatten ++ rest) =
      .ok (values, ⟨rest, pieces.flatten.length⟩)

/-- The bytes that are read to their end are the forms. -/
theorem fills_iff_reads {reader : Reader α} [Faithful reader] {bytes : Bytes} {a : α} :
    Fills reader bytes a ↔ Reads reader bytes a := by
  unfold Fills Reader.start
  rw [Reads.apply_eq_ok_iff]
  constructor
  · rintro ⟨form, hform, rfl, -⟩
    rw [List.append_nil]
    exact hform
  · intro h
    exact ⟨bytes, h, List.append_nil bytes, Nat.zero_add bytes.length⟩

theorem SelfDelimiting.of_faithful (reader : Reader α) [Faithful reader] :
    SelfDelimiting reader where
  taken {bytes place a cursor} h := by
    obtain ⟨rest, place'⟩ := cursor
    obtain ⟨form, hform, rfl, rfl⟩ := Reads.apply_eq_ok_iff.mp h
    refine ⟨form.length, by simp, by rw [List.drop_left], ?_, ?_⟩
    · rw [List.take_left]
      exact hform
    · intro cut hcut place'
      rw [exists_error_iff]
      rintro ⟨⟨a', rest', place''⟩, hread⟩
      -- a value read off fewer bytes would have a form that starts the form that was taken
      obtain ⟨form', hform', hcutBytes, -⟩ := Reads.apply_eq_ok_iff.mp hread
      rw [List.take_append_of_le_length hcut.le] at hcutBytes
      have hstarts : form' <+: form.take cut := ⟨rest', hcutBytes⟩
      have hlength := hstarts.length_le
      rw [(hform'.eq_of_isPrefix hform (hstarts.trans (List.take_prefix cut form))).1,
        List.length_take_of_le hcut.le] at hlength
      omega
  prefixFree h h' hstarts :=
    (fills_iff_reads.mp h).eq_of_isPrefix (fills_iff_reads.mp h') hstarts
  sequence h rest := by
    have hread := Reads.replicate (h.imp fun _ _ => fills_iff_reads.mp) rest 0
    rw [Nat.zero_add] at hread
    exact hread

/-- The reader keeps its place in the data, and looks at what it takes only. -/
structure ReadsInPlace (scanner : Scanner α) (reader : Reader α) : Prop where
  follows : Follows scanner reader
  selfDelimiting : SelfDelimiting reader

end CoinSpend
