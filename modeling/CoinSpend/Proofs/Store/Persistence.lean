import CoinSpend.Proofs.Store.Load
import CoinSpend.Proofs.Store.Session
import CoinSpend.Proofs.Transaction.Served
import Mathlib

/-!
# Saving and loading a store

A store that was filled by insertions has each transaction under its own id, whose digits have no
capital letters, so that no entry of its file gets in the way of another. What is left to chance is
the reading of each transaction: its bytes are read as block explorers serve them.

Results:
* `Store.save_eq`: a file has a line for each transaction.
* `Store.exists_load`: what is loaded from the file, id by id.
* `Store.load_save`: exactly the transactions with inputs come back.
-/

namespace CoinSpend

/-- The bytes of a transaction that can be written. -/
def Transaction.written (tx : Transaction) : Bytes := tx.encode.toOption.getD []

theorem Transaction.encode_eq_written {tx : Transaction} {id : String} (h : tx.id = .ok id) :
    tx.encode = .ok tx.written := by
  obtain ⟨hash, hhash, -⟩ := id_eq_ok_iff_exists.mp h
  obtain ⟨bytes, hencode, -⟩ := hash_eq_ok_iff.mp hhash
  unfold written
  rw [hencode]
  rfl

namespace Store

/-! ## Saving -/

/-- The lines of a store file. -/
def lines (store : Store) : List (String × String) :=
  store.entries.toList.map fun (id, tx) => (id, Hex.encode tx.written)

/-- A store is saved with a line for each transaction. -/
theorem save_eq {store : Store} (hfiled : store.IsFiled) :
    store.save true = .ok (StoreFile.write store.lines) := by
  have hwrite : store.write = .ok (StoreFile.write store.lines) := by
    refine bind_eq_ok_iff.mpr ⟨store.lines, mapM_eq_ok_iff.mpr ?_, rfl⟩
    refine List.forall₂_map_right_iff.mpr (List.forall₂_same.mpr ?_)
    rintro ⟨id, tx⟩ hmem
    have hid := hfiled id tx (Std.TreeMap.mem_toList_iff_getElem?_eq_some.mp hmem)
    exact bind_eq_ok_iff.mpr ⟨tx.written, Transaction.encode_eq_written hid, rfl⟩
  unfold save
  rw [hwrite]
  rfl

/-- The line of an id is that of the transaction under it. -/
theorem getElem?_ofList_lines (store : Store) (id : String) :
    (Std.TreeMap.ofList store.lines)[id]? =
      store.entries[id]?.map fun tx => Hex.encode tx.written := by
  have hdistinct : store.lines.Pairwise fun a b => ¬ compare a.1 b.1 = .eq :=
    List.pairwise_map.mpr Std.TreeMap.distinct_keys_toList
  cases hentry : store.entries[id]? with
  | some tx =>
    have hmem : (id, Hex.encode tx.written) ∈ store.lines :=
      List.mem_map.mpr ⟨(id, tx), Std.TreeMap.mem_toList_iff_getElem?_eq_some.mpr hentry, rfl⟩
    exact Std.TreeMap.getElem?_ofList_of_mem Std.ReflCmp.compare_self hdistinct hmem
  | none =>
    cases htext : (Std.TreeMap.ofList store.lines)[id]? with
    | none => rfl
    | some text =>
      obtain ⟨line, hline, rfl⟩ := List.mem_map.mp (mem_keys_of_getElem?_ofList htext)
      obtain ⟨⟨id, tx⟩, hmem, rfl⟩ := List.mem_map.mp hline
      rw [Std.TreeMap.mem_toList_iff_getElem?_eq_some.mp hmem] at hentry
      cases hentry

/-! ## Loading -/

/-- What is loaded from the file of a store, id by id. -/
theorem exists_load {store : Store} (hfiled : store.IsFiled) (testnet : Bool) :
    ∃ text loaded, store.save true = .ok text ∧ load (some text.toUTF8) testnet = .ok loaded ∧
      loaded.value.testnet = testnet ∧
      ∀ id : String, loaded.value.entries[id]? = store.entries[id]?.bind fun tx =>
        (Transaction.decodeServed tx.written testnet).toOption := by
  refine ⟨_, ofEntries store.lines testnet, save_eq hfiled,
    load_of_read (StoreFile.read_write _), testnet_ofEntries _ _, fun id => ?_⟩
  have hkeys : ∀ key ∈ store.lines.map Prod.fst, lowercase key = key := by
    intro key hkey
    obtain ⟨line, hline, rfl⟩ := List.mem_map.mp hkey
    obtain ⟨⟨id, tx⟩, hmem, rfl⟩ := List.mem_map.mp hline
    have hid := hfiled id tx (Std.TreeMap.mem_toList_iff_getElem?_eq_some.mp hmem)
    obtain ⟨hash, -, rfl⟩ := Transaction.id_eq_ok_iff_exists.mp hid
    exact lowercase_encode hash.val
  rw [getElem?_ofEntries hkeys, getElem?_ofList_lines, Option.bind_map]
  simp only [Function.comp_def, readHex_encode]

/-- A store that was filled by insertions can be saved and loaded again. The loaded store has no
other ids, and under an id it has the same transaction exactly if the transaction has inputs. Byte
strings in memory are shorter than `2 ^ 64`. -/
theorem load_save (testnet : Bool) (requests : List Request)
    (hlength : ∀ bytes, Inserts requests testnet bytes → bytes.length < 2 ^ 64) :
    ∃ text loaded, ((empty testnet).session requests).save true = .ok text ∧
      load (some text.toUTF8) testnet = .ok loaded ∧ loaded.value.testnet = testnet ∧
      (∀ id : String, ((empty testnet).session requests).entries[id]? = none →
        loaded.value.entries[id]? = none) ∧
      ∀ (id : String) (tx : Transaction),
        ((empty testnet).session requests).entries[id]? = some tx →
        (loaded.value.entries[id]? = some { tx with testnet := testnet } ↔ tx.inputs ≠ []) := by
  obtain ⟨text, loaded, hsave, hload, htestnet, hlookup⟩ :=
    exists_load (isFiled_session_empty testnet requests) testnet
  refine ⟨text, loaded, hsave, hload, htestnet, fun id hentry => ?_, fun id tx hentry => ?_⟩
  · rw [hlookup, hentry]
    rfl
  · obtain ⟨request, hmem, htx, hid⟩ := mem_session_empty hentry
    have hencode := Transaction.encode_eq_written hid
    have hshort := hlength _ ⟨request, hmem, tx, htx, hencode⟩
    rw [hlookup, hentry, Option.bind_some]
    constructor
    · intro hsame hinputs
      exact Transaction.decodeServed_ne_of_encode hencode hinputs testnet
        (eq_ok_of_toOption hsame)
    · intro hinputs
      rw [Transaction.decodeServed_of_encode hencode hshort hinputs]
      rfl

theorem load_save_onePush :
    ∃ id text loaded, Transaction.onePush.id = .ok id ∧
      ((empty false).session [.insert Transaction.onePush]).save true = .ok text ∧
      load (some text.toUTF8) false = .ok loaded ∧
      loaded.value.entries[id]? = some Transaction.onePush := by
  have hencode : Transaction.onePush.encode = .ok (Transaction.onePushForm [0x01]) :=
    eq_ok_of_toOption (by decide +kernel)
  have hid := Transaction.id_eq_ok_iff.mpr (Transaction.hash_of_encode hencode)
  have hlength : ∀ bytes, Inserts [.insert Transaction.onePush] false bytes →
      bytes.length < 2 ^ 64 := by
    rintro bytes ⟨request, hmem, tx, htx, hbytes⟩
    cases List.mem_singleton.mp hmem
    cases htx
    cases hencode.symm.trans hbytes
    decide
  obtain ⟨text, loaded, hsave, hload, -, -, hback⟩ := load_save false _ hlength
  exact ⟨_, text, loaded, hid, hsave, hload,
    (hback _ _ (getElem?_session_insert _ hid)).mpr (by decide)⟩

/-- A transaction without inputs that pays out nothing. -/
def unfunded : Transaction where
  version := 1
  inputs := []
  outputs := [⟨0, []⟩]
  locktime := 0
  testnet := false

/-- Under the id of a transaction without inputs another one may be loaded. -/
theorem load_save_unfunded :
    ∃ id text loaded, unfunded.id = .ok id ∧
      ((empty false).session [.insert unfunded]).entries[id]? = some unfunded ∧
      ((empty false).session [.insert unfunded]).save true = .ok text ∧
      load (some text.toUTF8) false = .ok loaded ∧
      loaded.value.entries[id]? = some { unfunded with outputs := [] } := by
  obtain ⟨text, loaded, hsave, hload, -, hlookup⟩ :=
    exists_load (isFiled_session_empty false [.insert unfunded]) false
  have hencode : unfunded.encode =
      .ok (Wire.uint32 1 ++ [0x00, 0x01] ++ Wire.uint64 0 ++ [0x00] ++ Wire.uint32 0) :=
    eq_ok_of_toOption (by decide +kernel)
  have hid := Transaction.id_eq_ok_iff.mpr (Transaction.hash_of_encode hencode)
  have hentry := getElem?_session_insert (empty false) hid
  have hserved : (Transaction.decodeServed unfunded.written false).toOption =
      some { unfunded with outputs := [] } := by decide +kernel
  refine ⟨_, text, loaded, hid, hentry, hsave, hload, ?_⟩
  rw [hlookup, hentry, Option.bind_some, hserved]

end Store

end CoinSpend
