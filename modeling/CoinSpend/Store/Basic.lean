import CoinSpend.Event
import CoinSpend.Store.File
import CoinSpend.Text.Character
import CoinSpend.Transaction.Wire
import Std.Data.TreeMap

/-!
# Stores of transactions

A store keeps known transactions under their ids and delivers them to those that spend from them. In
a file it is an object from ids to hexadecimal texts.

* `fetch_eq_ok_iff`: a store delivers the entry under an id exactly if the id is that of the entry.
* `fetch_eq_ok`: what a store delivers has the id that was asked for.
-/

namespace CoinSpend

/-- Transactions under their ids, and the network that texts are read for. Model of `TxStore`. -/
structure Store where
  testnet : Bool
  entries : Std.TreeMap String Transaction

namespace Store

/-- A store without transactions. Model of `TxStore.with_network`. -/
def empty (testnet : Bool) : Store := ⟨testnet, ∅⟩

/-- The number of transactions. Model of `TxStore.len`. -/
def size (store : Store) : Nat := store.entries.size

/-- Whether a store has no transactions. Model of `TxStore.is_empty`. -/
def isEmpty (store : Store) : Bool := store.size == 0

/-- Adds a transaction under its own id. The result is the id and the store with it. Model of
`TxStore.insert`. -/
def insert (store : Store) (tx : Transaction) : Except Error (String × Store) := do
  let id ← tx.id
  return (id, { store with entries := store.entries.insert id tx })

/-- Reads a transaction from hexadecimal text, with white space around it. Model of `decode_raw`. -/
def readHex (text : String) (testnet : Bool) : Except Error Transaction := do
  let bytes ← (Hex.decode (Blank.trim text.toList)).mapError .badHex
  Transaction.decodeServed bytes testnet

/-- Adds a transaction that is given as hexadecimal text. Model of `TxStore.insert_raw`. -/
def insertHex (store : Store) (text : String) : Except Error (String × Store) := do
  store.insert (← readHex text store.testnet)

/-- An id in lowercase letters. -/
def lowercase (id : String) : String := String.ofList (id.toList.map Char.toLower)

/-- The transaction under an id, in letters of either case. Model of `TxStore.get`. -/
def get? (store : Store) (id : String) : Option Transaction := store.entries[lowercase id]?

/-- Whether there is a transaction under an id. Model of `TxStore.contains`. -/
def contains (store : Store) (id : String) : Bool := (store.get? id).isSome

/-- Delivers the transaction with an id, for a network. An entry under an id that is not its own is
refused. Model of `TxStore.fetch`. -/
def fetch (store : Store) : Fetcher := fun id testnet => do
  let wanted := Hex.encode id.val
  match store.entries[wanted]? with
  | none => .error (.notInStore wanted)
  | some tx =>
    let actual ← tx.id
    if actual = wanted then .ok { tx with testnet := testnet } else .error (.wrongId actual wanted)

/-- The content of a store file with all transactions. -/
def write (store : Store) : Except Error String := do
  let lines ← store.entries.toList.mapM fun (id, tx) => do return (id, Hex.encode (← tx.encode))
  return StoreFile.write lines

/-- The content that is written to a file, which may lie where nothing can be written. Model of
`TxStore.save`. -/
def save (store : Store) (writable : Bool) : Except Error String := do
  let text ← store.write
  if writable then .ok text else .error .unwritableFile

/-- Adds the entry of a store file. An entry that is no transaction is told and left out. Model of
one pass of the loop of `TxStore.load_for_network`. -/
def addEntry (store : Logged Store) (entry : String × String) : Logged Store :=
  match readHex entry.2 store.value.testnet with
  | .error e => ⟨store.log ++ [.entrySkipped entry.1 e], store.value⟩
  | .ok tx =>
    store.map fun s => { s with entries := s.entries.insert (lowercase entry.1) tx }

/-- The store with the entries of a file, in the order of their keys. Of entries with the same key
the last one counts. Model of the loop of `TxStore.load_for_network`. -/
def ofEntries (entries : List (String × String)) (testnet : Bool) : Logged Store :=
  (Std.TreeMap.ofList entries).toList.foldl addEntry (.silent (empty testnet))

/-- Reads the content of a store file. -/
def read (text : String) (testnet : Bool) : Except Error (Logged Store) :=
  match StoreFile.read text.toList with
  | none => .error .malformedStoreFile
  | some entries => .ok (ofEntries entries testnet)

/-- Reads a store file, if there is one; its bytes must be UTF-8. Model of
`TxStore.load_for_network`. -/
def load (file : Option ByteArray) (testnet : Bool) : Except Error (Logged Store) :=
  match file.bind String.fromUTF8? with
  | none => .error .unreadableFile
  | some text => read text testnet

/-- Reads a store file, or starts a store without transactions if there is none. Model of
`TxStore.from_config`. -/
def loadOrEmpty (file : Option ByteArray) (testnet : Bool) : Except Error (Logged Store) :=
  if file.isNone then .ok (.silent (empty testnet)) else load file testnet

theorem fetch_eq_ok_iff {store : Store} {id : FixedBytes 32} {testnet : Bool} {tx : Transaction} :
    store.fetch id testnet = .ok tx ↔
      ∃ stored, store.entries[Hex.encode id.val]? = some stored ∧
        stored.id = .ok (Hex.encode id.val) ∧ { stored with testnet := testnet } = tx := by
  unfold fetch
  dsimp only
  cases store.entries[Hex.encode id.val]? with
  | none => simp
  | some stored =>
    cases hid : stored.id with
    | error e => simp [hid, bind, Except.bind]
    | ok actual =>
      by_cases heq : actual = Hex.encode id.val
      · simp [hid, bind, Except.bind, heq]
      · simp [hid, bind, Except.bind, heq]

theorem fetch_eq_ok {store : Store} {id : FixedBytes 32} {testnet : Bool} {tx : Transaction}
    (h : store.fetch id testnet = .ok tx) :
    tx.id = .ok (Hex.encode id.val) ∧ tx.testnet = testnet := by
  obtain ⟨stored, -, hid, rfl⟩ := fetch_eq_ok_iff.mp h
  exact ⟨hid, rfl⟩

end Store

end CoinSpend
