import CoinSpend.Proofs.Transaction.Sign
import Mathlib

/-!
# Inputs are signed one by one

No unlocking script takes part in the hash that an input signs, and the check of an input looks at
none but its own. So it does not matter in which order inputs are signed, nor what happens to an
input after it was signed, as long as it keeps its own script.

Results:
* `Transaction.sigHash_replaceUnlocking`, `Transaction.verifyInput_replaceUnlocking`: what another
  unlocking script does not change.
* `Transaction.signInput_comm`, `Transaction.signInput_snd_of_signInput`: two signatures in either
  order.
* `Transaction.signInputs_perm`: many signatures in any order.
* `Transaction.signInput_independent`: all of it together.
-/

namespace CoinSpend.Transaction

variable {tx : Transaction} {i j : ℕ} {fetch : Fetcher} {key other : PrivateKey}

/-! ## Another unlocking script -/

/-- The transaction with another unlocking script for one of its inputs, if it has that input. -/
def replaceUnlocking (tx : Transaction) (index : ℕ) (script : Script) : Transaction :=
  { tx with inputs := tx.inputs.modify index fun input => { input with unlocking := script } }

theorem setUnlocking_eq_ok_iff {signed : Transaction} {script : Script} :
    tx.setUnlocking i script = .ok signed ↔
      i < tx.inputs.length ∧ tx.replaceUnlocking i script = signed := by
  unfold setUnlocking replaceUnlocking
  rw [bind_eq_ok_iff]
  simp only [input_eq_ok_iff, List.getElem?_eq_some_iff, pure, Except.pure, Except.ok.injEq]
  constructor
  · rintro ⟨input, ⟨hindex, rfl⟩, rfl⟩
    refine ⟨hindex, ?_⟩
    rw [List.modify_eq_set_getElem?, List.getElem?_eq_getElem hindex]
    rfl
  · rintro ⟨hindex, rfl⟩
    refine ⟨_, ⟨hindex, rfl⟩, ?_⟩
    rw [List.modify_eq_set_getElem?, List.getElem?_eq_getElem hindex]
    rfl

theorem sameSpend_replaceUnlocking (tx : Transaction) (index : ℕ) (script : Script) :
    tx.SameSpend (tx.replaceUnlocking index script) := by
  refine ⟨rfl, ?_, rfl, rfl⟩
  rw [List.forall₂_iff_get]
  refine ⟨(List.length_modify _ _ _).symm, ?_⟩
  intro k hk hk'
  simp only [replaceUnlocking, List.get_eq_getElem, List.getElem_modify]
  split <;> exact ⟨rfl, rfl, rfl⟩

/-- No unlocking script takes part in the hash that an input signs. -/
theorem sigHash_replaceUnlocking (tx : Transaction) (index : ℕ) (script : Script) (i : ℕ)
    (redeem : Option Script) (fetch : Fetcher) :
    (tx.replaceUnlocking index script).sigHash i redeem fetch = tx.sigHash i redeem fetch :=
  ((tx.sameSpend_replaceUnlocking index script).sigHash_eq rfl i redeem fetch).symm

/-- The check of an input looks at no unlocking script but its own. -/
theorem verifyInput_replaceUnlocking (h : i ≠ j) (tx : Transaction) (script : Script)
    (fetch : Fetcher) :
    (tx.replaceUnlocking j script).verifyInput i fetch = tx.verifyInput i fetch := by
  have hinput : (tx.replaceUnlocking j script).input i = tx.input i := by
    unfold input replaceUnlocking
    rw [List.getElem?_modify_ne _ _ h.symm, List.length_modify]
  unfold verifyInput
  rw [hinput]
  simp only [sigHash_replaceUnlocking]
  rfl

theorem replaceUnlocking_comm (h : i ≠ j) (tx : Transaction) (script script' : Script) :
    (tx.replaceUnlocking i script).replaceUnlocking j script' =
      (tx.replaceUnlocking j script').replaceUnlocking i script := by
  unfold replaceUnlocking
  simp only
  rw [List.modify_modify_ne _ _ _ h]

/-! ## A signature -/

/-- The unlocking script that signing gives an input. -/
def newUnlocking (tx : Transaction) (index : ℕ) (key : PrivateKey) (fetch : Fetcher) :
    Except Error Script :=
  tx.sigHash index none fetch >>= unlockingScript key

theorem newUnlocking_replaceUnlocking (tx : Transaction) (j : ℕ) (script : Script) :
    (tx.replaceUnlocking j script).newUnlocking i key fetch = tx.newUnlocking i key fetch := by
  unfold newUnlocking
  rw [sigHash_replaceUnlocking]

/-- Signing replaces the unlocking script of the input, if there is something to sign. -/
theorem withSignature_eq_map (tx : Transaction) (index : ℕ) (key : PrivateKey) (fetch : Fetcher) :
    tx.withSignature index key fetch =
      (tx.newUnlocking index key fetch).map (tx.replaceUnlocking index) := by
  unfold withSignature newUnlocking
  cases hz : tx.sigHash index none fetch with
  | error e => rfl
  | ok z =>
    rw [ok_bind, ok_bind]
    cases unlockingScript key z with
    | error e => rfl
    | ok script =>
      have hindex : index < tx.inputs.length := by
        unfold sigHash at hz
        obtain ⟨input, hinput, -⟩ := bind_eq_ok_iff.mp hz
        exact (List.getElem?_eq_some_iff.mp (input_eq_ok_iff.mp hinput)).1
      exact setUnlocking_eq_ok_iff.mpr ⟨hindex, rfl⟩

/-- Signing changes one unlocking script, or nothing if there is nothing to sign. -/
theorem signInput_fst (tx : Transaction) (index : ℕ) (key : PrivateKey) (fetch : Fetcher) :
    (tx.signInput index key fetch).1 = match tx.newUnlocking index key fetch with
      | .error _ => tx
      | .ok script => tx.replaceUnlocking index script := by
  unfold signInput
  rw [withSignature_eq_map]
  cases tx.newUnlocking index key fetch <;> rfl

/-- The outcome of signing is that of a check afterwards. -/
theorem signInput_snd (tx : Transaction) (index : ℕ) (key : PrivateKey) (fetch : Fetcher) :
    (tx.signInput index key fetch).2 = tx.newUnlocking index key fetch >>= fun _ =>
      ((tx.signInput index key fetch).1.verifyInput index fetch).map fun outcome =>
        if outcome.value then outcome else ⟨outcome.log ++ [.signedInVain index], false⟩ := by
  unfold signInput
  rw [withSignature_eq_map]
  cases tx.newUnlocking index key fetch <;> rfl

/-- A check afterwards accepts the input if signing it told so. -/
theorem verifyInput_of_signInput_eq_ok {outcome : Logged Bool}
    (h : (tx.signInput i key fetch).2 = .ok outcome) :
    ((tx.signInput i key fetch).1.verifyInput i fetch).map (·.value) = .ok outcome.value := by
  rw [signInput_snd] at h
  obtain ⟨_, -, h⟩ := bind_eq_ok_iff.mp h
  obtain ⟨⟨log, value⟩, hverify, rfl⟩ := map_eq_ok_iff.mp h
  rw [hverify]
  cases value <;> rfl

/-! ## Two signatures -/

/-- A signature leaves what another one puts in as it was, also that of the same input. -/
theorem newUnlocking_signInput (tx : Transaction) (i j : ℕ) (key other : PrivateKey)
    (fetch : Fetcher) :
    (tx.signInput i key fetch).1.newUnlocking j other fetch = tx.newUnlocking j other fetch := by
  rw [signInput_fst]
  cases tx.newUnlocking i key fetch with
  | error e => rfl
  | ok script => exact tx.newUnlocking_replaceUnlocking i script

/-- A signature leaves the check of another input as it was. -/
theorem verifyInput_signInput (h : i ≠ j) (tx : Transaction) (other : PrivateKey)
    (fetch : Fetcher) :
    (tx.signInput j other fetch).1.verifyInput i fetch = tx.verifyInput i fetch := by
  rw [signInput_fst]
  cases tx.newUnlocking j other fetch with
  | error e => rfl
  | ok script => exact verifyInput_replaceUnlocking h tx script fetch

/-- Two inputs may be signed in either order. -/
theorem signInput_comm (h : i ≠ j) (tx : Transaction) (key other : PrivateKey) (fetch : Fetcher) :
    ((tx.signInput i key fetch).1.signInput j other fetch).1 =
      ((tx.signInput j other fetch).1.signInput i key fetch).1 := by
  rw [signInput_fst (tx.signInput i key fetch).1, signInput_fst (tx.signInput j other fetch).1,
    newUnlocking_signInput, newUnlocking_signInput, signInput_fst tx, signInput_fst tx]
  cases tx.newUnlocking i key fetch with
  | error e => cases tx.newUnlocking j other fetch <;> rfl
  | ok script =>
    cases tx.newUnlocking j other fetch with
    | error e => rfl
    | ok script' => exact replaceUnlocking_comm h tx script script'

/-- A signature has the same outcome after that of another input. -/
theorem signInput_snd_of_ne (h : i ≠ j) (tx : Transaction) (key other : PrivateKey)
    (fetch : Fetcher) :
    ((tx.signInput i key fetch).1.signInput j other fetch).2 = (tx.signInput j other fetch).2 := by
  rw [signInput_snd, signInput_snd tx, newUnlocking_signInput, ← signInput_comm h.symm,
    verifyInput_signInput h.symm]

/-! ## Many signatures -/

/-- Signs inputs one after another, each with a key. The result is the transaction afterwards, and
the outcome of each signature. -/
def signInputs (fetch : Fetcher) (tx : Transaction) :
    List (ℕ × PrivateKey) → Transaction × List (Except Error (Logged Bool))
  | [] => (tx, [])
  | (index, key) :: jobs =>
    let (signed, outcome) := tx.signInput index key fetch
    let (last, outcomes) := signInputs fetch signed jobs
    (last, outcome :: outcomes)

variable {jobs : List (ℕ × PrivateKey)}

theorem signInputs_append (tx : Transaction) (jobs later : List (ℕ × PrivateKey)) :
    (signInputs fetch tx (jobs ++ later)).1 =
      (signInputs fetch (signInputs fetch tx jobs).1 later).1 := by
  induction jobs generalizing tx with
  | nil => rfl
  | cons job jobs ih => exact ih _

/-- An input that is not signed is checked as before. -/
theorem verifyInput_signInputs (tx : Transaction) (h : i ∉ jobs.map Prod.fst) :
    (signInputs fetch tx jobs).1.verifyInput i fetch = tx.verifyInput i fetch := by
  induction jobs generalizing tx with
  | nil => rfl
  | cons job jobs ih =>
    rw [List.map_cons, List.mem_cons, not_or] at h
    exact (ih _ h.2).trans (verifyInput_signInput h.1 tx job.2 fetch)

/-- Each signature has the outcome that it has alone. -/
theorem signInputs_snd (tx : Transaction) (h : (jobs.map Prod.fst).Nodup) :
    (signInputs fetch tx jobs).2 = jobs.map fun job => (tx.signInput job.1 job.2 fetch).2 := by
  induction jobs generalizing tx with
  | nil => rfl
  | cons job jobs ih =>
    rw [List.map_cons, List.nodup_cons] at h
    change _ :: (signInputs fetch (tx.signInput job.1 job.2 fetch).1 jobs).2 = _
    rw [ih _ h.2, List.map_cons, List.cons.injEq]
    refine ⟨rfl, List.map_congr_left fun later hlater => ?_⟩
    have hne : job.1 ≠ later.1 := by
      intro heq
      exact h.1 (heq ▸ List.mem_map_of_mem hlater)
    exact signInput_snd_of_ne hne tx job.2 later.2 fetch

/-- Different inputs may be signed in any order. -/
theorem signInputs_perm (tx : Transaction) {jobs' : List (ℕ × PrivateKey)} (h : jobs.Perm jobs')
    (hnodup : (jobs.map Prod.fst).Nodup) :
    (signInputs fetch tx jobs).1 = (signInputs fetch tx jobs').1 := by
  induction h generalizing tx with
  | nil => rfl
  | cons job _ ih => exact ih _ (List.nodup_cons.mp hnodup).2
  | swap first second jobs =>
    have hne : second.1 ≠ first.1 := by
      intro heq
      exact (List.nodup_cons.mp hnodup).1 (heq ▸ List.mem_cons_self)
    change (signInputs fetch ((tx.signInput second.1 second.2 fetch).1.signInput
      first.1 first.2 fetch).1 jobs).1 = _
    rw [signInput_comm hne]
    rfl
  | trans hfirst _ ih ih' =>
    exact (ih tx hnodup).trans (ih' tx ((hfirst.map Prod.fst).nodup_iff.mp hnodup))

/-! ## Independence -/

/-- The hash that an input signs is the same whatever the inputs are unlocked with, and the check of
an input is the same whatever the other inputs are unlocked with. Two inputs may be signed in either
order, with the same transaction afterwards and the same outcomes. So may any number of different
inputs, and in the end each of them is checked as right after it was signed. -/
theorem signInput_independent (tx : Transaction) (fetch : Fetcher) :
    (∀ i j script signed, tx.setUnlocking j script = .ok signed →
      (∀ redeem, signed.sigHash i redeem fetch = tx.sigHash i redeem fetch) ∧
        (i ≠ j → signed.verifyInput i fetch = tx.verifyInput i fetch)) ∧
    (∀ i j key other, i ≠ j →
      ((tx.signInput i key fetch).1.signInput j other fetch).1 =
          ((tx.signInput j other fetch).1.signInput i key fetch).1 ∧
        ((tx.signInput i key fetch).1.signInput j other fetch).2 =
          (tx.signInput j other fetch).2 ∧
        ((tx.signInput j other fetch).1.signInput i key fetch).2 = (tx.signInput i key fetch).2) ∧
    ∀ jobs : List (ℕ × PrivateKey), (jobs.map Prod.fst).Nodup →
      (∀ jobs', jobs.Perm jobs' →
        (signInputs fetch tx jobs).1 = (signInputs fetch tx jobs').1) ∧
      (signInputs fetch tx jobs).2 = jobs.map (fun job => (tx.signInput job.1 job.2 fetch).2) ∧
      ∀ before i key after, jobs = before ++ (i, key) :: after →
        (signInputs fetch tx jobs).1.verifyInput i fetch =
            ((signInputs fetch tx before).1.signInput i key fetch).1.verifyInput i fetch ∧
          ∀ outcome, ((signInputs fetch tx before).1.signInput i key fetch).2 = .ok outcome →
            ((signInputs fetch tx jobs).1.verifyInput i fetch).map (·.value) =
              .ok outcome.value := by
  refine ⟨?_, ?_, ?_⟩
  · intro i j script signed hset
    obtain ⟨-, rfl⟩ := setUnlocking_eq_ok_iff.mp hset
    exact ⟨fun redeem => tx.sigHash_replaceUnlocking j script i redeem fetch,
      fun hne => verifyInput_replaceUnlocking hne tx script fetch⟩
  · intro i j key other hne
    exact ⟨signInput_comm hne tx key other fetch, signInput_snd_of_ne hne tx key other fetch,
      signInput_snd_of_ne hne.symm tx other key fetch⟩
  · intro jobs hnodup
    refine ⟨fun jobs' hperm => signInputs_perm tx hperm hnodup, signInputs_snd tx hnodup, ?_⟩
    rintro before i key after rfl
    have hafter : i ∉ after.map Prod.fst := by
      rw [List.map_append, List.map_cons] at hnodup
      exact (List.nodup_cons.mp hnodup.of_append_right).1
    have hcheck : (signInputs fetch tx (before ++ (i, key) :: after)).1.verifyInput i fetch =
        ((signInputs fetch tx before).1.signInput i key fetch).1.verifyInput i fetch := by
      rw [signInputs_append]
      exact verifyInput_signInputs _ hafter
    refine ⟨hcheck, fun outcome houtcome => ?_⟩
    rw [hcheck]
    exact verifyInput_of_signInput_eq_ok houtcome

/-! A spend of two outputs, of which the owner of the secret 1 owns the first one. -/

def toGenerators : Transaction :=
  ⟨1, [], [⟨1, Script.payToKeyHash (Hash.hash160 generatorSec)⟩,
    ⟨2, Script.payToKeyHash (Hash.hash160 [])⟩], 0, false⟩

def fromGenerators : Transaction :=
  ⟨1, [⟨.replicate 32 0, 0, [], finalSequence⟩, ⟨.replicate 32 0, 1, [], finalSequence⟩], [], 0,
    false⟩

def fromGeneratorsHash : ℕ :=
  0xc5dcb05806604897c8d13dbca407bb18bf04ff9904483197475b92725840b591

theorem sigHash_fromGenerators :
    fromGenerators.sigHash 0 none (fun _ _ => .ok toGenerators) = .ok fromGeneratorsHash :=
  eq_ok_of_toOption (by decide +kernel)

theorem exists_sign_fromGenerators {key : PrivateKey} (h : key.secret = 1) :
    ∃ sig, key.sign fromGeneratorsHash = .ok sig :=
  PrivateKey.exists_sign_of_isMultiple h (by decide)
    0xd21daf502e5f9909b8033b81b72d5189ac5ceafd815eeffc1dc375f661d4e9ed
    0x90275098ebe1bb2358cad5df65089326fc3b38ec58830fa780ac2f474b7fd49
    0x71698b3600ddd687463d191f4c0b4ec4534f9a029fa421f66027599a43a02f47
    (by decide +kernel) (by decide) (by decide +kernel) (by decide +kernel) (by decide +kernel)
    (by decide +kernel)

/-- The first input is accepted when it is signed, and still is when the second one is signed too,
after it or before it. -/
theorem signInputs_fromGenerators :
    ∃ key other changed outcome, PrivateKey.ofSecret 1 = .ok key ∧
      PrivateKey.ofSecret 2 = .ok other ∧ (0 : ℕ) ≠ 1 ∧
      fromGenerators.setUnlocking 1 [.push [1]] = .ok changed ∧
      (changed.verifyInput 0 fun _ _ => .ok toGenerators) =
        (fromGenerators.verifyInput 0 fun _ _ => .ok toGenerators) ∧
      ([(0, key), (1, other)].map Prod.fst).Nodup ∧
      [(0, key), (1, other)].Perm [(1, other), (0, key)] ∧
      (signInputs (fun _ _ => .ok toGenerators) fromGenerators [(0, key), (1, other)]).1 =
        (signInputs (fun _ _ => .ok toGenerators) fromGenerators [(1, other), (0, key)]).1 ∧
      (fromGenerators.signInput 0 key fun _ _ => .ok toGenerators).2 = .ok outcome ∧
      outcome.value = true ∧
      ((signInputs (fun _ _ => .ok toGenerators) fromGenerators
        [(0, key), (1, other)]).1.verifyInput 0 fun _ _ => .ok toGenerators).map (·.value) =
          .ok true := by
  obtain ⟨key, hkey, hsecret⟩ := PrivateKey.exists_ofSecret Nat.one_pos (by decide)
  obtain ⟨other, hother, -⟩ := PrivateKey.exists_ofSecret (show 0 < 2 by decide) (by decide)
  have hgenerator : key.sec true = .ok generatorSec := by
    rw [PrivateKey.sec, PrivateKey.point_eq_generator hsecret]
    exact eq_ok_of_toOption (by decide +kernel)
  obtain ⟨sig, hsign⟩ := exists_sign_fromGenerators hsecret
  have hlocking : (⟨1, Script.payToKeyHash (Hash.hash160 generatorSec)⟩ : Output).locking =
      Script.payToKeyHash (Hash.hash160 generatorSec) := rfl
  obtain ⟨_, sec, hsec, -, hresult, -⟩ :=
    signInput_of_sign rfl rfl hlocking sigHash_fromGenerators hsign
  obtain rfl : generatorSec = sec := Except.ok.inj (hgenerator.symm.trans hsec)
  rw [decide_eq_true rfl] at hresult
  obtain ⟨outcome, houtcome, htrue⟩ := map_eq_ok_iff.mp hresult
  have hset : fromGenerators.setUnlocking 1 [.push [1]] =
      .ok (fromGenerators.replaceUnlocking 1 [.push [1]]) :=
    setUnlocking_eq_ok_iff.mpr ⟨by decide, rfl⟩
  have hnodup : ([(0, key), (1, other)].map Prod.fst).Nodup := by simp
  obtain ⟨hchange, -, horder⟩ :=
    signInput_independent fromGenerators fun _ _ => .ok toGenerators
  obtain ⟨hperm, -, hlast⟩ := horder _ hnodup
  have haccepted := (hlast [] 0 key [(1, other)] rfl).2 outcome houtcome
  rw [htrue] at haccepted
  exact ⟨key, other, _, outcome, hkey, hother, by decide, hset,
    (hchange 0 1 _ _ hset).2 (by decide), hnodup, .swap _ _ _, hperm _ (.swap _ _ _), houtcome,
    htrue, haccepted⟩

end CoinSpend.Transaction
