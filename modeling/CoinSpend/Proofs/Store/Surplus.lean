import CoinSpend.Proofs.Store.Persistence
import Mathlib

/-!
# Bytes behind a transaction

A transaction tells where it ends. Read by itself, it is refused if bytes stand behind its end. Read
as block explorers serve it, it is taken, and the bytes are dropped without a word, also if there is
no mark and so no witness data to be dropped. On bytes without a mark this is all that the two
readers differ in. A store reads hexadecimal texts in the second way.

Results:
* `Transaction.decodeServed_eq_ok_iff`: what is taken for a transaction without a mark.
* `Transaction.decode_append`: the same bytes are refused when they are read by themselves.
* `Transaction.decodeServed_iff_unless_surplus`: where the two readers agree, and what a store does
  with the bytes on which they do not.
-/

namespace CoinSpend

/-- A file of one line is loaded as its entry. -/
theorem Store.load_singleton (key text : String) (testnet : Bool) :
    load (some (StoreFile.write [(key, text)]).toUTF8) testnet =
      .ok (addEntry (.silent (empty testnet)) (key, text)) :=
  load_of_read (StoreFile.read_write _)

namespace Transaction

variable {bytes form : Bytes} {testnet : Bool} {tx : Transaction}

/-- There is no zero byte behind the version, or nothing that it could mark. -/
def IsUnmarked (bytes : Bytes) : Prop := bytes.length ≤ 6 ∨ bytes[4]? ≠ some 0

instance decidableIsUnmarked : DecidablePred IsUnmarked :=
  fun bytes => inferInstanceAs (Decidable (bytes.length ≤ 6 ∨ bytes[4]? ≠ some 0))

/-- Without a mark the bytes are read from their start, and what is left of them is dropped. -/
theorem decodeServed_unmarked (h : IsUnmarked bytes) :
    decodeServed bytes testnet = ((read testnet).start bytes).map Prod.fst := by
  have hmark : ¬ (6 < bytes.length ∧ bytes[4]? = some 0) := by
    rintro ⟨hlong, hzero⟩
    rcases h with hshort | hother
    · omega
    · exact hother hzero
  unfold decodeServed
  rw [if_neg hmark]
  cases (read testnet).start bytes <;> rfl

/-- A transaction is read off the front of the bytes if it is a form of it that they start with. -/
theorem exists_start_iff : (∃ cursor, (read testnet).start bytes = .ok (tx, cursor)) ↔
    ∃ form extra, bytes = form ++ extra ∧ decode form testnet = .ok tx := by
  constructor
  · rintro ⟨cursor, hread⟩
    obtain ⟨form, hform, hfront⟩ := Faithful.exists_form hread
    exact ⟨form, cursor.rest, hfront, decode_eq_ok_iff.mpr hform⟩
  · rintro ⟨form, extra, rfl, hform⟩
    exact ⟨_, decode_eq_ok_iff.mp hform extra 0⟩

theorem decodeServed_eq_ok_iff (h : IsUnmarked bytes) : decodeServed bytes testnet = .ok tx ↔
    ∃ form extra, bytes = form ++ extra ∧ decode form testnet = .ok tx := by
  rw [decodeServed_unmarked h, map_eq_ok_iff, ← exists_start_iff]
  constructor
  · rintro ⟨⟨read, cursor⟩, hread, rfl⟩
    exact ⟨cursor, hread⟩
  · rintro ⟨cursor, hread⟩
    exact ⟨(tx, cursor), hread, rfl⟩

/-- Bytes that start with a form of a transaction are refused if there are others behind it. -/
theorem decode_append (h : decode form testnet = .ok tx) {extra : Bytes} (hextra : extra ≠ []) :
    decode (form ++ extra) testnet = .error (.trailingTransactionBytes extra.length) := by
  have hread := decode_eq_ok_iff.mp h extra 0
  unfold decode Reader.start
  rw [hread, ok_bind]
  exact if_neg hextra

/-- Where nothing can be read from the start, both readers fail for the same reason. -/
theorem decode_eq_error_of_decodeServed (h : IsUnmarked bytes) {e : Error}
    (hserved : decodeServed bytes testnet = .error e) : decode bytes testnet = .error e := by
  rw [decodeServed_unmarked h, map_eq_error_iff] at hserved
  unfold decode
  rw [hserved, error_bind]

/-- The readers take the same bytes exactly if none are left behind a transaction. -/
theorem decodeServed_iff_decode_iff (h : IsUnmarked bytes) :
    (∀ tx, decodeServed bytes testnet = .ok tx ↔ decode bytes testnet = .ok tx) ↔
      ∀ form extra tx, bytes = form ++ extra → decode form testnet = .ok tx → extra = [] := by
  constructor
  · intro hagree form extra tx hbytes hform
    have hserved := (decodeServed_eq_ok_iff h).mpr ⟨form, extra, hbytes, hform⟩
    by_contra hextra
    have hwhole := (hagree tx).mp hserved
    rw [hbytes, decode_append hform hextra] at hwhole
    cases hwhole
  · intro hnone tx
    rw [decodeServed_eq_ok_iff h]
    constructor
    · rintro ⟨form, extra, hbytes, hform⟩
      rw [hnone form extra tx hbytes hform, List.append_nil] at hbytes
      rw [hbytes]
      exact hform
    · intro hdecode
      exact ⟨bytes, [], (List.append_nil bytes).symm, hdecode⟩

/-- On bytes without a mark the two readers give the same transactions exactly if the bytes are not
a transaction with others behind it. What is read by itself is read as served, and what is refused
as served is refused by itself, with the same error. Where they differ, a store takes the
transaction in as if nothing stood behind it, from a text and from any place in a file. -/
theorem decodeServed_iff_unless_surplus (h : IsUnmarked bytes) :
    ((∀ tx, decodeServed bytes testnet = .ok tx ↔ decode bytes testnet = .ok tx) ↔
      ∀ form extra tx, bytes = form ++ extra → decode form testnet = .ok tx → extra = []) ∧
    (∀ tx, decode bytes testnet = .ok tx → decodeServed bytes testnet = .ok tx) ∧
    (∀ e, decodeServed bytes testnet = .error e → decode bytes testnet = .error e) ∧
    ∀ form extra tx, bytes = form ++ extra → extra ≠ [] → decode form testnet = .ok tx →
      decode bytes testnet = .error (.trailingTransactionBytes extra.length) ∧
      decodeServed bytes testnet = .ok tx ∧
      ∀ text : String, Hex.decode (Blank.trim text.toList) = .ok bytes →
        (∀ store : Store, store.testnet = testnet → store.insertHex text = store.insert tx) ∧
        ∀ (store : Logged Store) (key : String), store.value.testnet = testnet →
          Store.addEntry store (key, text) = store.map fun s =>
            { s with entries := s.entries.insert (Store.lowercase key) tx } := by
  refine ⟨decodeServed_iff_decode_iff h, ?_, fun e => decode_eq_error_of_decodeServed h, ?_⟩
  · intro tx hdecode
    exact (decodeServed_eq_ok_iff h).mpr ⟨bytes, [], (List.append_nil bytes).symm, hdecode⟩
  · intro form extra tx hbytes hextra hform
    have hserved : decodeServed bytes testnet = .ok tx :=
      (decodeServed_eq_ok_iff h).mpr ⟨form, extra, hbytes, hform⟩
    refine ⟨?_, hserved, fun text htext => ?_⟩
    · rw [hbytes]
      exact decode_append hform hextra
    have hread := (Store.readHex_of_decode htext testnet).trans hserved
    constructor
    · rintro store rfl
      exact Store.insertHex_of_readHex hread
    · rintro store key rfl
      exact Store.addEntry_of_readHex hread key

/-- The form of `onePush` with one more byte behind it. -/
def onePushSurplus : Bytes := onePushForm [0x01] ++ [0x00]

theorem decodeServed_onePushSurplus :
    IsUnmarked onePushSurplus ∧ decode (onePushForm [0x01]) false = .ok onePush ∧
      decode onePushSurplus false = .error (.trailingTransactionBytes 1) ∧
      decodeServed onePushSurplus false = .ok onePush ∧
      ∀ store : Store, store.testnet = false →
        store.insertHex (Hex.encode onePushSurplus) = store.insert onePush := by
  have hmark : IsUnmarked onePushSurplus := by decide
  have hform : decode (onePushForm [0x01]) false = .ok onePush :=
    eq_ok_of_toOption (by decide +kernel)
  obtain ⟨-, -, -, hdiffer⟩ := @decodeServed_iff_unless_surplus onePushSurplus false hmark
  obtain ⟨hrefused, htaken, hstored⟩ :=
    hdiffer (onePushForm [0x01]) [0x00] onePush rfl (List.cons_ne_nil _ _) hform
  exact ⟨hmark, hform, hrefused, htaken, (hstored _ (Hex.decode_trim_encode _)).1⟩

/-- A store takes `onePush` in off bytes that are refused by themselves, from a text and from a file
whose loading tells of nothing. -/
theorem load_onePushSurplus :
    IsUnmarked onePushSurplus ∧ (∀ tx, decode onePushSurplus false ≠ .ok tx) ∧
      decodeServed onePushSurplus false = .ok onePush ∧
      (∃ id store, (Store.empty false).insertHex (Hex.encode onePushSurplus) = .ok (id, store)) ∧
      ∃ loaded,
        Store.load (some (StoreFile.write [("a", Hex.encode onePushSurplus)]).toUTF8) false =
          .ok loaded ∧ loaded.log = [] ∧ loaded.value.get? "a" = some onePush := by
  have hmark : IsUnmarked onePushSurplus := by decide
  have hform : decode (onePushForm [0x01]) false = .ok onePush :=
    eq_ok_of_toOption (by decide +kernel)
  have hserved : decodeServed onePushSurplus false = .ok onePush :=
    (decodeServed_eq_ok_iff hmark).mpr ⟨_, _, rfl, hform⟩
  have hread := (Store.readHex_encode onePushSurplus false).trans hserved
  have hencode : onePush.encode = .ok (onePushForm [0x01]) :=
    eq_ok_of_toOption (by decide +kernel)
  obtain ⟨-, store, hinsert, -⟩ := Store.fetch_insert (hash_of_encode hencode) (.empty false)
  have hloaded := Store.load_singleton "a" (Hex.encode onePushSurplus) false
  rw [@Store.addEntry_of_readHex (.silent (.empty false)) _ _ hread] at hloaded
  have hinserted := (@Store.insertHex_of_readHex (.empty false) _ _ hread).trans hinsert
  refine ⟨hmark, fun tx htx => ?_, hserved, ⟨_, _, hinserted⟩, _, hloaded, rfl, ?_⟩
  · cases (decode_append hform (List.cons_ne_nil 0x00 [])).symm.trans htx
  · exact Std.TreeMap.getElem?_insert_self

end Transaction

end CoinSpend
