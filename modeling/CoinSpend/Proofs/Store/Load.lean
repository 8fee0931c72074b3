import CoinSpend.Proofs.Store.FileForm
import CoinSpend.Proofs.Outcome
import CoinSpend.Store.Basic
import Mathlib

/-!
# Loading store files

Of the entries of a file whose keys differ in the case of letters only, the last one that is a
transaction counts; the others leave no trace. Where the keys are lowercase, each entry stands for
itself.

Results:
* `Store.getElem?_foldl_addEntry`: which of the entries counts for an id.
* `Store.findSome?_reverse_toList_eq_some_iff`: what is found first from the end of a map.
* `Store.getElem?_ofEntries_eq_some_iff`: the lookups in a store that was loaded.
* `Store.getElem?_ofEntries`: the lookups in a store whose file has lowercase keys.
-/

namespace CoinSpend

/-! ## Digits -/

theorem Hex.toLower_digit {n : ℕ} (h : n < 16) : (digit n).toLower = digit n := by
  have : ∀ m : Fin 16, (digit m.val).toLower = digit m.val := by decide
  exact this ⟨n, h⟩

theorem Hex.isBlank_digit {n : ℕ} (h : n < 16) : Blank.isBlank (digit n) = false := by
  have : ∀ m : Fin 16, Blank.isBlank (digit m.val) = false := by decide
  exact this ⟨n, h⟩

/-- There is no white space around digits that could be taken off. -/
theorem Hex.decode_trim_encode (bytes : Bytes) :
    decode (Blank.trim (encode bytes).toList) = .ok bytes := by
  have htrim : Blank.trim (encode bytes).toList = (encode bytes).toList := by
    refine Blank.trim_eq_self fun c hc => ?_
    obtain ⟨n, hn, rfl⟩ := exists_digit_of_mem_encode hc
    exact isBlank_digit hn
  rw [htrim, decode_encode]

namespace Store

theorem lowercase_encode (bytes : Bytes) : lowercase (Hex.encode bytes) = Hex.encode bytes := by
  have hkept : (Hex.encode bytes).toList.map Char.toLower = (Hex.encode bytes).toList := by
    refine (List.map_congr_left fun c hc => ?_).trans (List.map_id _)
    obtain ⟨n, hn, rfl⟩ := Hex.exists_digit_of_mem_encode hc
    exact Hex.toLower_digit hn
  unfold lowercase
  rw [hkept, String.ofList_toList]

theorem readHex_of_decode {text : String} {bytes : Bytes}
    (h : Hex.decode (Blank.trim text.toList) = .ok bytes) (testnet : Bool) :
    readHex text testnet = Transaction.decodeServed bytes testnet := by
  unfold readHex
  rw [h]
  rfl

theorem readHex_encode (bytes : Bytes) (testnet : Bool) :
    readHex (Hex.encode bytes) testnet = Transaction.decodeServed bytes testnet :=
  readHex_of_decode (Hex.decode_trim_encode bytes) testnet

theorem insertHex_of_readHex {store : Store} {text : String} {tx : Transaction}
    (h : readHex text store.testnet = .ok tx) : store.insertHex text = store.insert tx := by
  unfold insertHex
  rw [h]
  rfl

/-! ## Entries -/

/-- The transaction of an entry, if its key stands for the id. -/
def entryAt? (testnet : Bool) (id : String) (entry : String × String) : Option Transaction :=
  if lowercase entry.1 = id then (readHex entry.2 testnet).toOption else none

theorem testnet_addEntry (store : Logged Store) (entry : String × String) :
    (addEntry store entry).value.testnet = store.value.testnet := by
  unfold addEntry
  cases readHex entry.2 store.value.testnet <;> rfl

theorem getElem?_addEntry (store : Logged Store) (entry : String × String) (id : String) :
    (addEntry store entry).value.entries[id]? =
      (entryAt? store.value.testnet id entry).or store.value.entries[id]? := by
  unfold addEntry entryAt?
  cases readHex entry.2 store.value.testnet with
  | error e => simp [Except.toOption]
  | ok tx =>
    simp only [Logged.map, Std.TreeMap.getElem?_insert, Std.LawfulEqCmp.compare_eq_iff_eq]
    split <;> simp [Except.toOption]

/-- An entry that is a transaction is told nothing of. -/
theorem addEntry_of_readHex {store : Logged Store} {text : String} {tx : Transaction}
    (h : readHex text store.value.testnet = .ok tx) (key : String) :
    addEntry store (key, text) =
      store.map fun s => { s with entries := s.entries.insert (lowercase key) tx } := by
  unfold addEntry
  rw [h]

/-- Of the entries for an id the last one that is a transaction counts. -/
theorem getElem?_foldl_addEntry (entries : List (String × String)) (store : Logged Store)
    (id : String) : (entries.foldl addEntry store).value.entries[id]? =
      (entries.reverse.findSome? (entryAt? store.value.testnet id)).or
        store.value.entries[id]? := by
  induction entries generalizing store with
  | nil => rfl
  | cons entry entries ih =>
    rw [List.foldl_cons, ih, testnet_addEntry, getElem?_addEntry, List.reverse_cons,
      List.findSome?_append, List.findSome?_singleton, Option.or_assoc]

theorem testnet_foldl_addEntry (entries : List (String × String)) (store : Logged Store) :
    (entries.foldl addEntry store).value.testnet = store.value.testnet := by
  induction entries generalizing store with
  | nil => rfl
  | cons entry entries ih => rw [List.foldl_cons, ih, testnet_addEntry]

/-! ## The order of keys -/

theorem pairwise_toList (map : Std.TreeMap String String) :
    map.toList.Pairwise fun a b => a.1 < b.1 := by
  have hkeys : map.toList.Pairwise fun a b => compare a.1 b.1 = .lt :=
    Std.TreeMap.ordered_keys_toList
  exact hkeys.imp fun h => compareOfLessAndEq_eq_lt.mp h

/-- From the end of a map on, an entry is found first if nothing is found at a higher key. -/
theorem findSome?_reverse_toList_eq_some_iff {β : Type} {map : Std.TreeMap String String}
    {f : String × String → Option β} {b : β} : map.toList.reverse.findSome? f = some b ↔
      ∃ key text, map[key]? = some text ∧ f (key, text) = some b ∧
        ∀ later other, key < later → map[later]? = some other → f (later, other) = none := by
  have hmem : ∀ key text, (key, text) ∈ map.toList.reverse ↔ map[key]? = some text := by
    intro key text
    rw [List.mem_reverse, Std.TreeMap.mem_toList_iff_getElem?_eq_some]
  have hsorted := List.pairwise_reverse.mpr (pairwise_toList map)
  rw [List.findSome?_eq_some_iff]
  constructor
  · rintro ⟨front, ⟨key, text⟩, rest, hsplit, hfound, hnone⟩
    rw [hsplit] at hmem hsorted
    refine ⟨key, text, (hmem key text).mp (by simp), hfound, fun later other hlater hother => ?_⟩
    -- What stands behind the entry has a lower key, as the list is reversed.
    rcases List.mem_append.mp ((hmem later other).mpr hother) with hfront | hrest
    · exact hnone _ hfront
    rcases List.mem_cons.mp hrest with heq | hrest
    · cases heq
      exact absurd hlater (lt_irrefl key)
    · have hlower := (List.pairwise_cons.mp (List.pairwise_append.mp hsorted).2.1).1 _ hrest
      exact absurd hlater (not_lt_of_gt hlower)
  · rintro ⟨key, text, htext, hfound, hnone⟩
    obtain ⟨front, rest, hsplit⟩ := List.append_of_mem ((hmem key text).mpr htext)
    refine ⟨front, (key, text), rest, hsplit, hfound, ?_⟩
    rintro ⟨later, other⟩ hfront
    rw [hsplit] at hmem hsorted
    have hhigher := (List.pairwise_append.mp hsorted).2.2 _ hfront _ List.mem_cons_self
    exact hnone later other hhigher ((hmem later other).mp (List.mem_append_left _ hfront))

/-! ## Lookups -/

/-- The entry of a file under a key is read with the given outcome. Of the entries with one key the
last one in the file counts. -/
def EntryReads (entries : List (String × String)) (testnet : Bool) (key : String)
    (outcome : Except Error Transaction) : Prop :=
  ∃ text, (Std.TreeMap.ofList entries)[key]? = some text ∧ readHex text testnet = outcome

variable {entries : List (String × String)} {testnet : Bool} {id key : String} {tx : Transaction}

theorem testnet_ofEntries (entries : List (String × String)) (testnet : Bool) :
    (ofEntries entries testnet).value.testnet = testnet :=
  testnet_foldl_addEntry _ _

theorem entryAt?_eq_some_iff {text : String} : entryAt? testnet id (key, text) = some tx ↔
    lowercase key = id ∧ readHex text testnet = .ok tx := by
  unfold entryAt?
  split
  · next hkey =>
    rw [toOption_eq_some_iff]
    exact (and_iff_right hkey).symm
  · next hkey => exact iff_of_false (Option.some_ne_none tx).symm fun h => hkey h.1

theorem getElem?_ofEntries_eq_findSome? :
    (ofEntries entries testnet).value.entries[id]? =
      (Std.TreeMap.ofList entries).toList.reverse.findSome? (entryAt? testnet id) := by
  unfold ofEntries
  rw [getElem?_foldl_addEntry]
  change (List.findSome? (entryAt? testnet id) _).or (∅ : Std.TreeMap String Transaction)[id]? = _
  rw [Std.TreeMap.getElem?_emptyc, Option.or_none]

/-- Under an id stands the last of the transactions whose keys stand for it. -/
theorem getElem?_ofEntries_eq_some_iff :
    (ofEntries entries testnet).value.entries[id]? = some tx ↔
      ∃ key, lowercase key = id ∧ EntryReads entries testnet key (.ok tx) ∧
        ∀ other later, lowercase other = id → EntryReads entries testnet other (.ok later) →
          other ≤ key := by
  rw [getElem?_ofEntries_eq_findSome?, findSome?_reverse_toList_eq_some_iff]
  constructor
  · rintro ⟨key, text, htext, hfound, hnone⟩
    obtain ⟨hkey, hread⟩ := entryAt?_eq_some_iff.mp hfound
    refine ⟨key, hkey, ⟨text, htext, hread⟩, ?_⟩
    rintro other later hother ⟨otherText, hotherText, hotherRead⟩
    by_contra hlater
    have hsome := entryAt?_eq_some_iff.mpr ⟨hother, hotherRead⟩
    rw [hnone other otherText (not_le.mp hlater) hotherText] at hsome
    cases hsome
  · rintro ⟨key, hkey, ⟨text, htext, hread⟩, hlast⟩
    refine ⟨key, text, htext, entryAt?_eq_some_iff.mpr ⟨hkey, hread⟩, ?_⟩
    intro other otherText hlater hotherText
    cases hfound : entryAt? testnet id (other, otherText) with
    | none => rfl
    | some later =>
      obtain ⟨hother, hotherRead⟩ := entryAt?_eq_some_iff.mp hfound
      have hle := hlast other later hother ⟨otherText, hotherText, hotherRead⟩
      exact absurd hlater (not_lt_of_ge hle)

theorem mem_keys_of_getElem?_ofList {entries : List (String × String)} {key text : String}
    (h : (Std.TreeMap.ofList entries)[key]? = some text) : key ∈ entries.map Prod.fst := by
  have hcontains := Std.TreeMap.mem_iff_isSome_getElem?.mpr (Option.isSome_of_eq_some h)
  rwa [Std.TreeMap.mem_ofList, List.contains_iff_mem] at hcontains

/-- Where no key has capital letters, an entry is read by itself. -/
theorem getElem?_ofEntries {entries : List (String × String)}
    (hkeys : ∀ key ∈ entries.map Prod.fst, lowercase key = key) (testnet : Bool) (id : String) :
    (ofEntries entries testnet).value.entries[id]? =
      (Std.TreeMap.ofList entries)[id]?.bind fun text => (readHex text testnet).toOption := by
  refine Option.ext fun tx => ?_
  rw [getElem?_ofEntries_eq_some_iff, Option.bind_eq_some_iff]
  constructor
  · rintro ⟨key, rfl, ⟨text, htext, hread⟩, -⟩
    refine ⟨text, ?_, toOption_eq_some_iff.mpr hread⟩
    rw [hkeys key (mem_keys_of_getElem?_ofList htext), htext]
  · rintro ⟨text, htext, hread⟩
    have hid := hkeys id (mem_keys_of_getElem?_ofList htext)
    refine ⟨id, hid, ⟨text, htext, eq_ok_of_toOption hread⟩, ?_⟩
    rintro other later hother ⟨otherText, hotherText, -⟩
    rw [← hother, hkeys other (mem_keys_of_getElem?_ofList hotherText)]

/-! ## Files -/

theorem fromUTF8?_toUTF8 (text : String) : String.fromUTF8? text.toUTF8 = some text := by
  unfold String.fromUTF8?
  rw [String.toUTF8_eq_toByteArray, dif_pos text.isValidUTF8]
  rfl

theorem load_of_read {text : String} (h : StoreFile.read text.toList = some entries) :
    load (some text.toUTF8) testnet = .ok (ofEntries entries testnet) := by
  unfold load read
  rw [Option.bind_some, fromUTF8?_toUTF8]
  simp only [h]

end Store

end CoinSpend
