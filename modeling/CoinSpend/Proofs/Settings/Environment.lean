import CoinSpend.Settings.Basic
import Mathlib

/-!
# Settings from the environment

The environment may override the network flag and the store's path. The flag comes first, and the
first unusable value ends the overriding: what was done before it stays, and what comes behind it is
not looked at. So the path never matters to the flag, but an unusable flag takes a usable path with
it, of which nothing is told.

Results:
* `override_eq`: the settings behind the overriding, and the error that ended it.
* `ofEnvironment_eq_overrideEach_iff`: when each usable value of the environment is kept.
-/

namespace CoinSpend.Settings

/-! ## One by one -/

/-- The path of an override, unless it is empty. -/
def usablePath? (path : Option String) : Option String := path.filter (· != "")

/-- The settings with each usable override, whatever becomes of the other one. -/
def overrideEach (settings : Settings) (overrides : Overrides) : Settings where
  testnet := (overrides.testnet.bind flag?).getD settings.testnet
  storePath := (usablePath? overrides.storePath).getD settings.storePath

/-- The error of a network flag that is there and stands for no truth value. -/
def flagFault? (word : Option String) : Option Error :=
  (word.filter fun word => (flag? word).isNone).map .badFlagOverride

/-- The error of a path that is there and empty. -/
def pathFault? (path : Option String) : Option Error :=
  (path.filter (· == "")).map fun _ => .emptyPathOverride

/-! ## One after the other -/

section Sequence

variable (settings : Settings)

/-- A network flag is refused with its error, or taken. -/
theorem overrideFlag_eq (word : Option String) :
    settings.overrideFlag word = (flagFault? word).elim
      (.ok { settings with testnet := (word.bind flag?).getD settings.testnet }) .error := by
  cases word with
  | none => rfl
  | some word => cases h : flag? word <;> simp [overrideFlag, flagFault?, Option.filter_some, h]

/-- A path is refused with its error, or taken. -/
theorem overridePath_eq (path : Option String) :
    settings.overridePath path = (pathFault? path).elim
      (.ok { settings with storePath := (usablePath? path).getD settings.storePath }) .error := by
  cases path with
  | none => rfl
  | some path =>
    by_cases h : path = "" <;>
      simp [overridePath, pathFault?, usablePath?, Option.filter_some, h]

/-- A path that is refused is no usable one. -/
theorem usablePath?_of_fault {path : Option String} {e : Error} (h : pathFault? path = some e) :
    usablePath? path = none := by
  cases path with
  | none => rfl
  | some path =>
    by_cases hempty : path = ""
    · rw [hempty]
      rfl
    · simp [pathFault?, Option.filter_some, hempty] at h

/-- A word that is refused stands for no truth value. -/
theorem bind_flag?_of_fault {word : Option String} {e : Error} (h : flagFault? word = some e) :
    word.bind flag? = none := by
  cases word with
  | none => rfl
  | some word =>
    cases hflag : flag? word with
    | none => exact hflag
    | some testnet => simp [flagFault?, Option.filter_some, hflag] at h

/-- An unusable flag leaves the settings as they were. Otherwise each usable override is kept. The
error is that of the first unusable one. -/
theorem override_eq (overrides : Overrides) :
    settings.override overrides =
      (if (flagFault? overrides.testnet).isSome then settings else settings.overrideEach overrides,
        (flagFault? overrides.testnet).or (pathFault? overrides.storePath)) := by
  unfold override
  rw [overrideFlag_eq]
  cases hflag : flagFault? overrides.testnet with
  | some e => rfl
  | none =>
    simp only [Option.elim_none, overridePath_eq, overrideEach]
    cases hpath : pathFault? overrides.storePath with
    | some e => simp [usablePath?_of_fault hpath]
    | none => simp

end Sequence

/-! ## The environment -/

/-- The error that ended the overriding is told. -/
theorem ofEnvironment_eq (overrides : Overrides) :
    ofEnvironment overrides =
      ⟨((default.override overrides).2.map Event.overrideIgnored).toList,
        (default.override overrides).1⟩ := by
  unfold ofEnvironment
  cases default.override overrides with
  | mk settings e => cases e <;> rfl

/-- The network flag of the environment is kept if it is usable, whatever the path is, and the path
is kept if it is usable and the flag is not unusable. So each usable value is kept exactly unless
the flag is unusable and the path a usable one other than the default. The first unusable value is
told, and no other. -/
theorem ofEnvironment_eq_overrideEach_iff (overrides : Overrides) :
    (ofEnvironment overrides).value.testnet = (default.overrideEach overrides).testnet ∧
    (ofEnvironment overrides).value.storePath =
      (if (flagFault? overrides.testnet).isSome then default.storePath
        else (default.overrideEach overrides).storePath) ∧
    ((ofEnvironment overrides).value = default.overrideEach overrides ↔
      (flagFault? overrides.testnet).isNone ∨
        (default.overrideEach overrides).storePath = default.storePath) ∧
    (ofEnvironment overrides).log =
      (((flagFault? overrides.testnet).or (pathFault? overrides.storePath)).map
        Event.overrideIgnored).toList := by
  rw [ofEnvironment_eq, override_eq]
  cases hflag : flagFault? overrides.testnet with
  | none => simp
  | some e =>
    have hword : overrides.testnet.bind flag? = none := bind_flag?_of_fault hflag
    have htestnet : (default.overrideEach overrides).testnet = default.testnet := by
      rw [overrideEach, hword]
      rfl
    have hsame : default = default.overrideEach overrides ↔
        (default.overrideEach overrides).storePath = default.storePath := by
      constructor
      · intro h
        rw [← h]
      · intro h
        calc default = ⟨default.testnet, default.storePath⟩ := rfl
          _ = default.overrideEach overrides := by rw [← htestnet, ← h]
    exact ⟨htestnet.symm, rfl, by simp [hsame], rfl⟩

/-- Behind a network flag that is no truth value, a path is lost that is taken by itself. -/
theorem ofEnvironment_maybe_other :
    (ofEnvironment ⟨some "maybe", some "other.json"⟩).value = default ∧
      default.overrideEach ⟨some "maybe", some "other.json"⟩ = ⟨false, "other.json"⟩ ∧
      (ofEnvironment ⟨none, some "other.json"⟩).value = ⟨false, "other.json"⟩ := by
  decide

end CoinSpend.Settings
