import CoinSpend.Proofs.Store.Load
import CoinSpend.Proofs.Text.Utf8
import CoinSpend.Proofs.Transaction.Served
import Mathlib

/-!
# Unreadable entries

A store file is loaded entry by entry, in the order of the keys. An entry that is no transaction
leaves a warning and nothing else, so it makes no difference whether there is one.

Results:
* `Store.getElem?_ofEntries_congr`: what the lookup of an id depends on.
* `Store.size_ofEntries`, `Store.log_ofEntries`: the number of transactions and the warnings.
* `Store.load_isolates`: the loading of any store file, and what a single entry has influence on.
-/

namespace CoinSpend.Store

variable {entries : List (String × String)} {testnet : Bool} {id : String}

/-! ## Lookups -/

theorem mem_ofEntries_iff : id ∈ (ofEntries entries testnet).value.entries ↔
    ∃ key tx, lowercase key = id ∧ EntryReads entries testnet key (.ok tx) := by
  rw [Std.TreeMap.mem_iff_isSome_getElem?, getElem?_ofEntries_eq_findSome?,
    List.findSome?_isSome_iff]
  constructor
  · rintro ⟨⟨key, text⟩, hmem, hsome⟩
    obtain ⟨tx, hfound⟩ := Option.isSome_iff_exists.mp hsome
    obtain ⟨hkey, hread⟩ := entryAt?_eq_some_iff.mp hfound
    have htext := Std.TreeMap.mem_toList_iff_getElem?_eq_some.mp (List.mem_reverse.mp hmem)
    exact ⟨key, tx, hkey, text, htext, hread⟩
  · rintro ⟨key, tx, hkey, text, htext, hread⟩
    have hmem := Std.TreeMap.mem_toList_iff_getElem?_eq_some.mpr htext
    exact ⟨(key, text), List.mem_reverse.mpr hmem,
      Option.isSome_of_eq_some (entryAt?_eq_some_iff.mpr ⟨hkey, hread⟩)⟩

theorem get?_ofEntries_eq_none_iff : (ofEntries entries testnet).value.get? id = none ↔
    ∀ key tx, lowercase key = lowercase id → ¬ EntryReads entries testnet key (.ok tx) := by
  unfold get?
  rw [← Option.not_isSome_iff_eq_none, ← Std.TreeMap.mem_iff_isSome_getElem?, mem_ofEntries_iff]
  simp only [not_exists, not_and]

/-- The lookup of an id depends on the transactions alone whose keys stand for it. -/
theorem getElem?_ofEntries_congr {others : List (String × String)}
    (h : ∀ key tx, lowercase key = id →
      (EntryReads entries testnet key (.ok tx) ↔ EntryReads others testnet key (.ok tx))) :
    (ofEntries entries testnet).value.entries[id]? =
      (ofEntries others testnet).value.entries[id]? := by
  refine Option.ext fun tx => ?_
  rw [getElem?_ofEntries_eq_some_iff, getElem?_ofEntries_eq_some_iff]
  refine exists_congr fun key => and_congr_right fun hkey => and_congr (h key tx hkey) ?_
  refine forall_congr' fun other => forall_congr' fun later => ?_
  exact imp_congr_right fun hother => imp_congr_left (h other later hother)

/-! ## The number of transactions -/

theorem size_ofEntries : (ofEntries entries testnet).value.size =
    Set.ncard {id | ∃ key tx, lowercase key = id ∧ EntryReads entries testnet key (.ok tx)} := by
  have hids : {id | ∃ key tx, lowercase key = id ∧ EntryReads entries testnet key (.ok tx)} =
      ((ofEntries entries testnet).value.entries.keys.toFinset : Set String) := by
    ext id
    rw [Set.mem_ofPred_eq, ← mem_ofEntries_iff, Finset.mem_coe, List.mem_toFinset,
      Std.TreeMap.mem_keys]
  rw [hids, Set.ncard_coe_finset, List.toFinset_card_of_nodup Std.TreeMap.nodup_keys,
    Std.TreeMap.length_keys]
  rfl

/-! ## Warnings -/

/-- Why an entry is no transaction. -/
def fault? (testnet : Bool) (entry : String × String) : Option (String × Error) :=
  match readHex entry.2 testnet with
  | .error e => some (entry.1, e)
  | .ok _ => none

theorem fault?_eq_some_iff {entry : String × String} {fault : String × Error} :
    fault? testnet entry = some fault ↔
      entry.1 = fault.1 ∧ readHex entry.2 testnet = .error fault.2 := by
  obtain ⟨key, e⟩ := fault
  unfold fault?
  cases readHex entry.2 testnet <;> simp

theorem log_addEntry (store : Logged Store) (entry : String × String) :
    (addEntry store entry).log = store.log ++
      ((fault? store.value.testnet entry).toList.map fun fault =>
        .entrySkipped fault.1 fault.2) := by
  unfold addEntry fault?
  cases readHex entry.2 store.value.testnet with
  | error e => rfl
  | ok tx => exact (List.append_nil _).symm

theorem log_foldl_addEntry (entries : List (String × String)) (store : Logged Store) :
    (entries.foldl addEntry store).log = store.log ++
      (entries.filterMap (fault? store.value.testnet)).map fun fault =>
        .entrySkipped fault.1 fault.2 := by
  induction entries generalizing store with
  | nil => exact (List.append_nil _).symm
  | cons entry entries ih =>
    rw [List.foldl_cons, ih, testnet_addEntry, log_addEntry, List.append_assoc, ← List.map_append]
    cases hfault : fault? store.value.testnet entry with
    | none => rw [List.filterMap_cons_none hfault]; rfl
    | some fault => rw [List.filterMap_cons_some hfault]; rfl

/-- The entries of a file that are no transactions. -/
def faults (entries : List (String × String)) (testnet : Bool) : List (String × Error) :=
  (Std.TreeMap.ofList entries).toList.filterMap (fault? testnet)

theorem mem_faults_iff {fault : String × Error} : fault ∈ faults entries testnet ↔
    EntryReads entries testnet fault.1 (.error fault.2) := by
  unfold faults
  rw [List.mem_filterMap]
  constructor
  · rintro ⟨⟨key, text⟩, hmem, hfault⟩
    obtain ⟨rfl, hread⟩ := fault?_eq_some_iff.mp hfault
    exact ⟨text, Std.TreeMap.mem_toList_iff_getElem?_eq_some.mp hmem, hread⟩
  · rintro ⟨text, htext, hread⟩
    exact ⟨(fault.1, text), Std.TreeMap.mem_toList_iff_getElem?_eq_some.mpr htext,
      fault?_eq_some_iff.mpr ⟨rfl, hread⟩⟩

theorem pairwise_faults : (faults entries testnet).Pairwise fun a b => a.1 < b.1 := by
  refine List.pairwise_filterMap.mpr ((pairwise_toList _).imp ?_)
  intro entry later hlt fault hfault laterFault hlaterFault
  rw [← (fault?_eq_some_iff.mp hfault).1, ← (fault?_eq_some_iff.mp hlaterFault).1]
  exact hlt

theorem log_ofEntries : (ofEntries entries testnet).log =
    (faults entries testnet).map fun fault => .entrySkipped fault.1 fault.2 :=
  log_foldl_addEntry _ _

/-! ## Files -/

/-- A store file is loaded entry by entry. Under an id in letters of either case stands the
transaction of the entry whose key has the highest bytes, of those whose keys are the id up to the
case of letters and that are transactions. The store has as many transactions as there are such ids
in lowercase letters, and of each entry that is no transaction there is one warning, in the order of
the keys. If a file differs in one entry, no id is looked up differently but that of the entry, and
not this one either if the entry is no transaction in any of the files that have it. -/
theorem load_isolates {text : String} (h : StoreFile.read text.toList = some entries)
    (testnet : Bool) : ∃ loaded, load (some text.toUTF8) testnet = .ok loaded ∧
      (∀ id tx, loaded.value.get? id = some tx ↔
        ∃ key, lowercase key = lowercase id ∧ EntryReads entries testnet key (.ok tx) ∧
          ∀ other later, lowercase other = lowercase id →
            EntryReads entries testnet other (.ok later) → Utf8.bytes other ≤ Utf8.bytes key) ∧
      (∀ id, loaded.value.get? id = none ↔
        ∀ key tx, lowercase key = lowercase id → ¬ EntryReads entries testnet key (.ok tx)) ∧
      loaded.value.size =
        Set.ncard {id | ∃ key tx, lowercase key = id ∧ EntryReads entries testnet key (.ok tx)} ∧
      (∃ faults : List (String × Error),
        loaded.log = faults.map (fun fault => .entrySkipped fault.1 fault.2) ∧
        faults.Pairwise (fun a b => Utf8.bytes a.1 < Utf8.bytes b.1) ∧
        ∀ key e, (key, e) ∈ faults ↔ EntryReads entries testnet key (.error e)) ∧
      ∀ (changed : String) (others : List (String × String)) (key : String),
        StoreFile.read changed.toList = some others →
        (∀ other, other ≠ key →
          (Std.TreeMap.ofList entries)[other]? = (Std.TreeMap.ofList others)[other]?) →
        ∃ reloaded, load (some changed.toUTF8) testnet = .ok reloaded ∧
          (∀ id, lowercase id ≠ lowercase key →
            reloaded.value.get? id = loaded.value.get? id) ∧
          ((∀ tx, ¬ EntryReads entries testnet key (.ok tx)) →
            (∀ tx, ¬ EntryReads others testnet key (.ok tx)) →
            ∀ id, reloaded.value.get? id = loaded.value.get? id) := by
  refine ⟨_, load_of_read h, fun id tx => ?_, fun id => ?_, size_ofEntries, ?_, ?_⟩
  · simp only [Utf8.bytes_le_iff]
    exact getElem?_ofEntries_eq_some_iff
  · exact get?_ofEntries_eq_none_iff
  · refine ⟨faults entries testnet, log_ofEntries, ?_, fun key e => mem_faults_iff⟩
    exact pairwise_faults.imp Utf8.bytes_lt_iff.mpr
  · intro changed others key hchanged hsame
    have hreads : ∀ other tx, other ≠ key →
        (EntryReads others testnet other (.ok tx) ↔ EntryReads entries testnet other (.ok tx)) := by
      intro other tx hother
      unfold EntryReads
      rw [hsame other hother]
    refine ⟨_, load_of_read hchanged, fun id hid => ?_, fun hnone hnone' id => ?_⟩
    · refine getElem?_ofEntries_congr fun other tx hother => hreads other tx ?_
      rintro rfl
      exact hid hother.symm
    · refine getElem?_ofEntries_congr fun other tx hother => ?_
      by_cases hkey : other = key
      · rw [hkey]
        exact iff_of_false (hnone' tx) (hnone tx)
      · exact hreads other tx hkey

/-- Two keys for one id, of which the later one has no transaction. -/
def clashing : List (String × String) :=
  [("ab", "zz"), ("AB", Hex.encode (Transaction.onePushForm [0x01]))]

theorem load_clashing : StoreFile.read (StoreFile.write clashing).toList = some clashing ∧
    ∃ loaded, load (some (StoreFile.write clashing).toUTF8) false = .ok loaded ∧
      loaded.value.get? "aB" = some Transaction.onePush ∧ loaded.value.get? "cd" = none ∧
      ∃ e, Event.entrySkipped "ab" e ∈ loaded.log := by
  have hread := StoreFile.read_write clashing
  have hserved : Transaction.decodeServed (Transaction.onePushForm [0x01]) false =
      .ok Transaction.onePush := eq_ok_of_toOption (by decide +kernel)
  have hupper : EntryReads clashing false "AB" (.ok Transaction.onePush) :=
    ⟨_, by decide +kernel, (readHex_encode _ false).trans hserved⟩
  have hbad : (readHex "zz" false).toOption = none := by decide +kernel
  have hlower : ∃ e, EntryReads clashing false "ab" (.error e) := by
    cases hzz : readHex "zz" false with
    | error e => exact ⟨e, "zz", by decide +kernel, hzz⟩
    | ok tx => rw [hzz] at hbad; cases hbad
  have hkeys : ∀ key tx, EntryReads clashing false key (.ok tx) → key = "AB" := by
    rintro key tx ⟨text, htext, htx⟩
    have hkey : key = "ab" ∨ key = "AB" := by
      simpa [clashing] using mem_keys_of_getElem?_ofList htext
    rcases hkey with rfl | rfl
    · obtain ⟨e, other, hother, he⟩ := hlower
      cases htext.symm.trans hother
      cases htx.symm.trans he
    · rfl
  obtain ⟨loaded, hload, hsome, hnone, -, ⟨faults, hlog, -, hfaults⟩, -⟩ :=
    load_isolates hread false
  refine ⟨hread, loaded, hload, (hsome _ _).mpr ⟨"AB", by decide, hupper, ?_⟩, ?_, ?_⟩
  · intro other later _ hother
    rw [hkeys other later hother]
    exact Utf8.bytes_le_iff.mpr le_rfl
  · refine (hnone _).mpr fun key tx hkey hreads => ?_
    rw [hkeys key tx hreads] at hkey
    exact absurd hkey (by decide)
  · obtain ⟨e, he⟩ := hlower
    rw [hlog]
    exact ⟨e, List.mem_map.mpr ⟨_, (hfaults "ab" e).mpr he, rfl⟩⟩

end CoinSpend.Store
