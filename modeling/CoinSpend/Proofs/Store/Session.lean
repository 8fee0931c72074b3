import CoinSpend.Proofs.Transaction.Forms
import Mathlib

/-!
# Sessions with a store

A store answers requests one after another. It may start with anything, also with transactions under
ids that are not their own, and each insertion may replace such an entry. What is delivered is
checked against the id that was asked for, so only insertions under one id compete with each other.

Results:
* `Store.perform_cases`: a request leaves the store as it is or adds one transaction under its id.
* `Store.mem_session`: what a store holds was there at first or was inserted.
* `Store.Keeps.session`: an entry is replaced by transactions with the same bytes only, unless
  different bytes have the same hash.
* `Store.session_delivers`: what is delivered has the hash that was asked for, and what was inserted
  is delivered from then on.
-/

namespace CoinSpend

open Hash (hash256)

namespace Store

/-! ## Requests -/

/-- What a store is asked for. -/
inductive Request where
  | insert (tx : Transaction)
  | insertHex (text : String)
  | get (id : String)
  | fetch (id : FixedBytes 32) (testnet : Bool)
  | save (writable : Bool)

/-- What a store answers. -/
inductive Answer where
  | inserted (id : Except Error String)
  | found (tx : Option Transaction)
  | fetched (tx : Except Error Transaction)
  | saved (text : Except Error String)

/-- The answer to an insertion and the store behind it, which is the old one after a failure. -/
def settle (store : Store) : Except Error (String × Store) → Answer × Store
  | .error e => (.inserted (.error e), store)
  | .ok (id, store') => (.inserted (.ok id), store')

/-- The answer to a request and the store behind it. -/
def perform (store : Store) : Request → Answer × Store
  | .insert tx => store.settle (store.insert tx)
  | .insertHex text => store.settle (store.insertHex text)
  | .get id => (.found (store.get? id), store)
  | .fetch id testnet => (.fetched (store.fetch id testnet), store)
  | .save writable => (.saved (store.save writable), store)

/-- The store behind requests one after another. -/
def session (store : Store) (requests : List Request) : Store :=
  requests.foldl (fun store request => (store.perform request).2) store

/-- The transaction that a request is to insert, if it is one. -/
def Request.transaction? (testnet : Bool) : Request → Option Transaction
  | .insert tx => some tx
  | .insertHex text => (readHex text testnet).toOption
  | _ => none

/-- The bytes of a transaction that one of the requests is to insert. -/
def Inserts (requests : List Request) (testnet : Bool) (bytes : Bytes) : Prop :=
  ∃ request ∈ requests, ∃ tx, request.transaction? testnet = some tx ∧ tx.encode = .ok bytes

@[simp] theorem session_nil (store : Store) : store.session [] = store := rfl

@[simp] theorem session_cons (store : Store) (request : Request) (requests : List Request) :
    store.session (request :: requests) = (store.perform request).2.session requests := rfl

theorem session_append (store : Store) (before after : List Request) :
    store.session (before ++ after) = (store.session before).session after :=
  List.foldl_append

/-! ## One request -/

theorem settle_insert (store : Store) {tx : Transaction} {id : String} (h : tx.id = .ok id) :
    store.settle (store.insert tx) =
      (.inserted (.ok id), { store with entries := store.entries.insert id tx }) := by
  unfold insert
  rw [h]
  rfl

/-- Only a transaction that has no id is not inserted. -/
theorem settle_insert_cases (store : Store) (tx : Transaction) :
    ((store.settle (store.insert tx)).2 = store ∧
      ∀ id, (store.settle (store.insert tx)).1 ≠ .inserted (.ok id)) ∨
    ∃ id, tx.id = .ok id ∧ store.settle (store.insert tx) =
      (.inserted (.ok id), { store with entries := store.entries.insert id tx }) := by
  cases hid : tx.id with
  | error e =>
    have hfailed : store.insert tx = .error e := by
      unfold insert
      rw [hid]
      rfl
    rw [hfailed]
    exact .inl ⟨rfl, fun id => by simp [settle]⟩
  | ok id => exact .inr ⟨id, rfl, settle_insert store hid⟩

/-- A request is answered by an id exactly if it inserts a transaction that has this id. All other
requests leave the store as it is. -/
theorem perform_cases (store : Store) (request : Request) :
    ((store.perform request).2 = store ∧ ∀ id, (store.perform request).1 ≠ .inserted (.ok id)) ∨
      ∃ tx id, request.transaction? store.testnet = some tx ∧ tx.id = .ok id ∧
        store.perform request =
          (.inserted (.ok id), { store with entries := store.entries.insert id tx }) := by
  cases request with
  | insert tx =>
    rcases store.settle_insert_cases tx with hsame | ⟨id, hid, hadded⟩
    · exact .inl hsame
    · exact .inr ⟨tx, id, rfl, hid, hadded⟩
  | insertHex text =>
    simp only [perform, insertHex, Request.transaction?]
    cases readHex text store.testnet with
    | error e => exact .inl ⟨rfl, fun id => by simp [settle]⟩
    | ok tx =>
      rcases store.settle_insert_cases tx with hsame | ⟨id, hid, hadded⟩
      · exact .inl hsame
      · exact .inr ⟨tx, id, rfl, hid, hadded⟩
  | get id => exact .inl ⟨rfl, fun _ => by simp [perform]⟩
  | fetch id testnet => exact .inl ⟨rfl, fun _ => by simp [perform]⟩
  | save writable => exact .inl ⟨rfl, fun _ => by simp [perform]⟩

theorem testnet_perform (store : Store) (request : Request) :
    (store.perform request).2.testnet = store.testnet := by
  rcases store.perform_cases request with ⟨hsame, -⟩ | ⟨tx, id, -, -, hadded⟩
  · rw [hsame]
  · rw [hadded]

theorem testnet_session (store : Store) (requests : List Request) :
    (store.session requests).testnet = store.testnet := by
  induction requests generalizing store with
  | nil => rfl
  | cons request requests ih => rw [session_cons, ih, testnet_perform]

/-! ## What a store holds -/

/-- What a store holds was there at first or was inserted, and then lies under its own id. -/
theorem mem_session {store : Store} {requests : List Request} {id : String} {tx : Transaction}
    (h : (store.session requests).entries[id]? = some tx) :
    store.entries[id]? = some tx ∨
      ∃ request ∈ requests, request.transaction? store.testnet = some tx ∧ tx.id = .ok id := by
  induction requests generalizing store with
  | nil => exact .inl h
  | cons request requests ih =>
    rw [session_cons] at h
    rcases ih h with hentry | ⟨later, hmem, hlater⟩
    · rcases store.perform_cases request with ⟨hsame, -⟩ | ⟨tx', id', htx', hid', hadded⟩
      · rw [hsame] at hentry
        exact .inl hentry
      · rw [hadded, Std.TreeMap.getElem?_insert] at hentry
        split at hentry
        · next heq =>
          rw [Option.some.injEq] at hentry
          rw [Std.LawfulEqCmp.eq_of_compare heq, hentry] at hid'
          exact .inr ⟨request, List.mem_cons_self, hentry ▸ htx', hid'⟩
        · exact .inl hentry
    · rw [testnet_perform] at hlater
      exact .inr ⟨later, List.mem_cons_of_mem _ hmem, hlater⟩

/-- Each transaction lies under its own id. -/
def IsFiled (store : Store) : Prop :=
  ∀ (id : String) (tx : Transaction), store.entries[id]? = some tx → tx.id = .ok id

theorem mem_session_empty {testnet : Bool} {requests : List Request} {id : String}
    {tx : Transaction} (h : ((empty testnet).session requests).entries[id]? = some tx) :
    ∃ request ∈ requests, request.transaction? testnet = some tx ∧ tx.id = .ok id := by
  rcases mem_session h with hempty | hinserted
  · rw [empty, Std.TreeMap.getElem?_emptyc] at hempty
    cases hempty
  · exact hinserted

theorem isFiled_session_empty (testnet : Bool) (requests : List Request) :
    ((empty testnet).session requests).IsFiled := by
  intro id tx h
  obtain ⟨-, -, -, hid⟩ := mem_session_empty h
  exact hid

theorem getElem?_session_insert (store : Store) {tx : Transaction} {id : String}
    (h : tx.id = .ok id) : (store.session [.insert tx]).entries[id]? = some tx := by
  rw [session_cons, session_nil, perform, settle_insert store h, Std.TreeMap.getElem?_insert_self]

/-! ## What is kept -/

/-- The store has a transaction with the given bytes under the id that they give it. -/
def Keeps (store : Store) (bytes : Bytes) : Prop :=
  ∃ tx, store.entries[Hex.encode (hash256 bytes).reverse.val]? = some tx ∧ tx.encode = .ok bytes

/-- The transaction that is kept is delivered, for any network. -/
theorem Keeps.exists_fetch {store : Store} {bytes : Bytes} (h : store.Keeps bytes)
    (testnet : Bool) :
    ∃ tx, store.fetch (hash256 bytes).reverse testnet = .ok tx ∧ tx.encode = .ok bytes := by
  obtain ⟨tx, hentry, hencode⟩ := h
  have hid := Transaction.id_eq_ok_iff.mpr (Transaction.hash_of_encode hencode)
  exact ⟨{ tx with testnet := testnet }, fetch_eq_ok_iff.mpr ⟨tx, hentry, hid, rfl⟩, hencode⟩

/-- An insertion that is answered by an id keeps the transaction. -/
theorem keeps_of_inserted {store : Store} {request : Request} {tx : Transaction} {id : String}
    (htx : request.transaction? store.testnet = some tx)
    (h : (store.perform request).1 = .inserted (.ok id)) :
    ∃ bytes, tx.encode = .ok bytes ∧ Hex.encode (hash256 bytes).reverse.val = id ∧
      (store.perform request).2.Keeps bytes := by
  rcases store.perform_cases request with ⟨-, hno⟩ | ⟨tx', id', htx', hid', hadded⟩
  · exact absurd h (hno id)
  · rw [htx, Option.some.injEq] at htx'
    subst htx'
    rw [hadded, Answer.inserted.injEq, Except.ok.injEq] at h
    subst h
    obtain ⟨hash, hhash, rfl⟩ := Transaction.id_eq_ok_iff_exists.mp hid'
    obtain ⟨bytes, hencode, rfl⟩ := Transaction.hash_eq_ok_iff.mp hhash
    refine ⟨bytes, hencode, rfl, tx, ?_, hencode⟩
    rw [hadded, Std.TreeMap.getElem?_insert_self]

/-- A request replaces what is kept by a transaction with the same hash at most. -/
theorem Keeps.perform {store : Store} {bytes : Bytes} (h : store.Keeps bytes) {request : Request}
    (hsame : ∀ tx other, request.transaction? store.testnet = some tx → tx.encode = .ok other →
      hash256 other = hash256 bytes → other = bytes) : (store.perform request).2.Keeps bytes := by
  rcases store.perform_cases request with ⟨hunchanged, -⟩ | ⟨tx, id, htx, hid, hadded⟩
  · rw [hunchanged]
    exact h
  · obtain ⟨kept, hentry, hkept⟩ := h
    obtain ⟨hash, hhash, rfl⟩ := Transaction.id_eq_ok_iff_exists.mp hid
    obtain ⟨other, hother, rfl⟩ := Transaction.hash_eq_ok_iff.mp hhash
    unfold Keeps
    rw [hadded, Std.TreeMap.getElem?_insert]
    split
    · next heq =>
      -- An entry is replaced under the same id only, and the id is written from the hash.
      have hids := Hex.encode_inj.mp (Std.LawfulEqCmp.eq_of_compare heq)
      have hhashes := congrArg FixedBytes.reverse (Subtype.ext hids)
      rw [FixedBytes.reverse_reverse, FixedBytes.reverse_reverse] at hhashes
      exact ⟨tx, rfl, by rw [hother, hsame tx other htx hother hhashes]⟩
    · exact ⟨kept, hentry, hkept⟩

/-- What is kept stays while no request is to insert other bytes with the same hash. -/
theorem Keeps.session {store : Store} {bytes : Bytes} (h : store.Keeps bytes)
    {requests : List Request} (hsame : ∀ other, Inserts requests store.testnet other →
      hash256 other = hash256 bytes → other = bytes) : (store.session requests).Keeps bytes := by
  induction requests generalizing store with
  | nil => exact h
  | cons request requests ih =>
    refine ih (h.perform fun tx other htx hother => hsame other ?_) fun other hother =>
      hsame other ?_
    · exact ⟨request, List.mem_cons_self, tx, htx, hother⟩
    · rw [testnet_perform] at hother
      obtain ⟨later, hlater, hrest⟩ := hother
      exact ⟨later, List.mem_cons_of_mem _ hlater, hrest⟩

/-! ## What is delivered -/

/-- Whatever a store holds at first, it delivers a transaction under the hash of the transaction
only, and for the network that was asked for. Requests that insert nothing leave it as it is. A
transaction whose insertion was answered by an id is delivered under it from then on, for each
network and with the same bytes, if no two different byte strings of transactions to be inserted
have the same hash. -/
theorem session_delivers (start : Store) (requests : List Request) :
    (∀ id testnet tx, (start.session requests).fetch id testnet = .ok tx →
      tx.hash = .ok id ∧ tx.testnet = testnet) ∧
    (∀ request, (∀ tx, request ≠ .insert tx) → (∀ text, request ≠ .insertHex text) →
      ((start.session requests).perform request).2 = start.session requests) ∧
    ((∀ bytes other, Inserts requests start.testnet bytes → Inserts requests start.testnet other →
        hash256 bytes = hash256 other → bytes = other) →
      ∀ before request after, requests = before ++ request :: after →
        ∀ tx id, request.transaction? start.testnet = some tx →
          ((start.session before).perform request).1 = .inserted (.ok id) →
          ∃ hash, tx.hash = .ok hash ∧ Hex.encode hash.val = id ∧
            ∀ testnet, ∃ served, (start.session requests).fetch hash testnet = .ok served ∧
              served.encode = tx.encode) := by
  refine ⟨fun id testnet tx h => ?_, fun request hinsert hinsertHex => ?_, ?_⟩
  · obtain ⟨hid, hnetwork⟩ := fetch_eq_ok h
    exact ⟨Transaction.id_eq_ok_iff.mp hid, hnetwork⟩
  · cases request with
    | insert tx => exact absurd rfl (hinsert tx)
    | insertHex text => exact absurd rfl (hinsertHex text)
    | get | fetch | save => rfl
  · rintro hfree before request after rfl tx id htx hanswer
    rw [← testnet_session start before] at htx
    obtain ⟨bytes, hencode, rfl, hkeeps⟩ := keeps_of_inserted htx hanswer
    have hlater : ((start.session before).perform request).2.testnet = start.testnet := by
      rw [testnet_perform, testnet_session]
    have hinserts : Inserts (before ++ request :: after) start.testnet bytes := by
      rw [testnet_session] at htx
      exact ⟨request, List.mem_append_right _ List.mem_cons_self, tx, htx, hencode⟩
    refine ⟨(hash256 bytes).reverse, Transaction.hash_of_encode hencode, rfl, fun testnet => ?_⟩
    rw [session_append, session_cons, hencode]
    refine (hkeeps.session fun other hother hhash => ?_).exists_fetch testnet
    rw [hlater] at hother
    obtain ⟨later, hmem, hother⟩ := hother
    exact hfree other bytes
      ⟨later, List.mem_append_right _ (List.mem_cons_of_mem _ hmem), hother⟩ hinserts hhash

/-- A transaction that differs from `onePush` in its locktime. -/
def latePush : Transaction := { Transaction.onePush with locktime := 1 }

/-- A store with `latePush` under the id of `onePush`. -/
def mislabelled : Store where
  testnet := false
  entries := (∅ : Std.TreeMap String Transaction).insert
    (Hex.encode (hash256 (Transaction.onePushForm [0x01])).reverse.val) latePush

/-- The wrong entry is replaced, and the right one stays behind the next insertion. -/
theorem session_delivers_mislabelled :
    ∃ hash, Transaction.onePush.hash = .ok hash ∧ ∀ testnet, ∃ served,
      (mislabelled.session [.insert Transaction.onePush, .insert latePush]).fetch hash testnet =
        .ok served ∧ served.encode = Transaction.onePush.encode := by
  have hdiffer : Transaction.onePush.hash.toOption ≠ latePush.hash.toOption := by decide +kernel
  have hinserts : ∀ {bytes},
      Inserts [.insert Transaction.onePush, .insert latePush] mislabelled.testnet bytes →
        Transaction.onePush.encode = .ok bytes ∨ latePush.encode = .ok bytes := by
    rintro bytes ⟨request, hrequest, tx, htx, hencode⟩
    rcases List.mem_pair.mp hrequest with rfl | rfl
    · exact .inl (Option.some.inj htx ▸ hencode)
    · exact .inr (Option.some.inj htx ▸ hencode)
  have hfree : ∀ bytes other,
      Inserts [.insert Transaction.onePush, .insert latePush] mislabelled.testnet bytes →
      Inserts [.insert Transaction.onePush, .insert latePush] mislabelled.testnet other →
        hash256 bytes = hash256 other → bytes = other := by
    intro bytes other hbytes hother heq
    have hhashes : ∀ {left right : Transaction}, left.encode = .ok bytes →
        right.encode = .ok other → left.hash = right.hash := by
      intro left right hleft hright
      rw [Transaction.hash_of_encode hleft, Transaction.hash_of_encode hright, heq]
    rcases hinserts hbytes, hinserts hother with ⟨hb | hb, ho | ho⟩
    · exact Except.ok.inj (hb.symm.trans ho)
    · exact absurd (congrArg Except.toOption (hhashes hb ho)) hdiffer
    · exact absurd (congrArg Except.toOption (hhashes hb ho)).symm hdiffer
    · exact Except.ok.inj (hb.symm.trans ho)
  have hencode : Transaction.onePush.encode = .ok (Transaction.onePushForm [0x01]) :=
    eq_ok_of_toOption (by decide +kernel)
  have hid := Transaction.id_eq_ok_iff.mpr (Transaction.hash_of_encode hencode)
  have hanswer := congrArg Prod.fst (settle_insert mislabelled hid)
  obtain ⟨hash, hhash, -, hserved⟩ := (session_delivers mislabelled _).2.2 hfree [] _ _ rfl _ _ rfl
    hanswer
  exact ⟨hash, hhash, hserved⟩

end Store

end CoinSpend
