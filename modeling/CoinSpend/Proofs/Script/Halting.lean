import CoinSpend.Proofs.Script.Walk
import Mathlib

/-!
# The end of every run

Each move of a run by index leaves less to do. What was read is behind all that may still be read,
since a window goes on behind the conditional whose branch has a window in front of it, and the
program has nothing left when its redeem script is entered. So a run comes to an end, and reads no
instruction twice.

Results:
* `Walk.ahead_cases`, `Walk.before_of_follows`, `Walk.weight_lt_of_follows`: how each move gets on.
* `Walk.exists_runs`: a run by index comes to an end, with the outcome of the run.
* `Walk.Runs.isChain`, `Walk.Runs.forall_mem`, `Walk.Runs.places`: the states of a run, and the
  instructions that it reads.
* `Script.run_walks`: the runs of programs.
-/

namespace CoinSpend

namespace Walk

variable {ctx : Context} {program : Script} {w : Window} {ws : List Window}
  {spliced : List Script} {s : Stack} {m next : Walk}

/-! ## Getting on -/

/-- The instructions that may still be read: those left in the windows, and those of a redeem script
if none was entered. -/
def Ahead (m : Walk) (place : Origin × ℕ) : Prop :=
  (∃ w ∈ m.windows, w.origin = place.1 ∧ w.next ≤ place.2 ∧ place.2 < w.stop) ∨
    m.spliced = [] ∧ place.1 = .redeemScript

/-- The order in which instructions are read: by index, and the redeem script behind the program. -/
def Before (place other : Origin × ℕ) : Prop :=
  place.1 = other.1 ∧ place.2 < other.2 ∨ place.1 = .program ∧ other.1 = .redeemScript

theorem place?_eq_some_iff {place : Origin × ℕ} :
    place? ⟨w :: ws, spliced, s⟩ = some place ↔ w.next < w.stop ∧ (w.origin, w.next) = place := by
  unfold place?
  simp only
  split
  · next h => simp [h]
  · next h => simp [h]

theorem ahead_of_place? {place : Origin × ℕ} (h : m.place? = some place) : m.Ahead place := by
  obtain ⟨_ | ⟨w, ws⟩, spliced, s⟩ := m
  · cases h
  · obtain ⟨hnext, rfl⟩ := place?_eq_some_iff.mp h
    exact .inl ⟨w, List.mem_cons_self, rfl, le_rfl, hnext⟩

/-- What is ahead after a move stands further on in the innermost window, or in a window around it,
or in a redeem script that was not entered before. -/
theorem ahead_cases {place : Origin × ℕ} (h : Follows program ⟨w :: ws, spliced, s⟩ next)
    (hahead : next.Ahead place) :
    (w.origin = place.1 ∧ w.next < place.2 ∧ place.2 < w.stop) ∨
      (∃ v ∈ ws, v.origin = place.1 ∧ v.next ≤ place.2 ∧ place.2 < v.stop) ∨
      spliced = [] ∧ place.1 = .redeemScript := by
  obtain ⟨origin, index⟩ := place
  rcases hahead with ⟨v, hv, horigin, hle, hlt⟩ | ⟨hspliced, hredeem⟩
  · cases h with
    | leave => exact .inr (.inl ⟨v, hv, horigin, hle, hlt⟩)
    | advance hnext =>
      rcases List.mem_cons.mp hv with rfl | hv
      · exact .inl ⟨horigin, hle, hlt⟩
      · exact .inr (.inl ⟨v, hv, horigin, hle, hlt⟩)
    | branch hstart hrange hstop hendIf =>
      simp only [List.mem_cons] at hv
      rcases hv with rfl | rfl | hv
      · exact .inl ⟨horigin, hstart.trans_le hle, (hlt.trans_le hstop).trans hendIf⟩
      · exact .inl ⟨horigin, (hstart.trans_le (hrange.trans hstop)).trans hle, hlt⟩
      · exact .inr (.inl ⟨v, hv, horigin, hle, hlt⟩)
    | redeem =>
      simp only [List.mem_cons, List.not_mem_nil, or_false] at hv
      rcases hv with rfl | rfl
      · exact .inr (.inr ⟨rfl, horigin.symm⟩)
      · exact absurd (hle.trans_lt hlt) (lt_irrefl _)
  · cases h with
    | redeem => cases hspliced
    | _ => exact .inr (.inr ⟨hspliced, hredeem⟩)

/-- A move puts no instruction ahead that was not there before. -/
theorem ahead_of_follows {place : Origin × ℕ} (h : Follows program ⟨w :: ws, spliced, s⟩ next)
    (hahead : next.Ahead place) : Ahead ⟨w :: ws, spliced, s⟩ place := by
  rcases ahead_cases h hahead with ⟨horigin, hlt, hstop⟩ | ⟨v, hv, hahead⟩ | hredeem
  · exact .inl ⟨w, List.mem_cons_self, horigin, hlt.le, hstop⟩
  · exact .inl ⟨v, List.mem_cons_of_mem w hv, hahead⟩
  · exact .inr hredeem

/-- What is read in a move is before all that is ahead then. -/
theorem before_of_follows {place other : Origin × ℕ} (hnest : Nest program spliced (w :: ws))
    (h : Follows program ⟨w :: ws, spliced, s⟩ next)
    (hplace : place? ⟨w :: ws, spliced, s⟩ = some place) (hahead : next.Ahead other) :
    Before place other := by
  obtain ⟨hnext, rfl⟩ := place?_eq_some_iff.mp hplace
  rcases ahead_cases h hahead with ⟨horigin, hlt, -⟩ | ⟨v, hv, horigin, hle, hlt⟩ | ⟨rfl, hredeem⟩
  · exact .inl ⟨horigin, hlt⟩
  · obtain ⟨hsame, hbehind⟩ := hnest.lt_of_mem v hv (hle.trans_lt hlt)
    exact .inl ⟨hsame.symm.trans horigin, (hnext.trans hbehind).trans_le hle⟩
  · exact .inr ⟨hnest.origin_of_mem w List.mem_cons_self, hredeem⟩

/-- A bound for the number of moves to come: one for each instruction left and each window, and one
more than those for a redeem script if none was entered. -/
def weight (m : Walk) : ℕ :=
  (m.windows.map fun w => w.stop - w.next + 1).sum + if m.spliced = [] then 521 else 0

theorem weight_lt_of_follows (h : Follows program m next) : next.weight < m.weight := by
  cases h with
  | leave =>
    simp only [weight, List.map_cons, List.sum_cons]
    omega
  | advance hnext =>
    simp only [weight, List.map_cons, List.sum_cons, Window.goTo]
    omega
  | branch hstart hrange hstop hendIf =>
    simp only [weight, List.map_cons, List.sum_cons, Window.goTo, Window.part]
    omega
  | redeem hnext hlength =>
    simp only [weight, List.map_cons, List.map_nil, List.sum_cons, List.sum_nil, if_true,
      List.cons_ne_nil, if_false]
    omega

/-! ## Whole runs -/

theorem follows_of_step (h : Nest program spliced (w :: ws))
    (hstep : step ctx program w ws spliced s = .ok (.ok next)) :
    Follows program ⟨w :: ws, spliced, s⟩ next := by
  obtain ⟨r, hr, hsimulates⟩ := exists_step h
  exact hsimulates.follows next (Except.ok.inj (hr.symm.trans hstep))

theorem stepsTo_of_step (h : Nest program spliced (w :: ws))
    (hstep : step ctx program w ws spliced s = .ok (.ok next)) :
    Machine.StepsTo ctx (machine ⟨w :: ws, spliced, s⟩) next.machine := by
  obtain ⟨r, hr, hsimulates⟩ := exists_step h
  obtain rfl := Except.ok.inj (hr.symm.trans hstep)
  exact ⟨w.frame, ws.map Window.frame, rfl, hsimulates.machine.symm⟩

theorem length_spliced_of_follows (h : Follows program m next) (hm : m.spliced.length ≤ 1) :
    next.spliced.length ≤ 1 := by
  cases h with
  | leave => exact hm
  | advance => exact hm
  | branch => exact hm
  | redeem => exact le_rfl

/-- A run by index comes to an end, with the outcome of the run. -/
theorem exists_runs (m : Walk) (h : Nest program m.spliced m.windows) :
    ∃ path, Runs ctx program m path (Machine.run ctx m.machine.frames m.machine.stack).value ∧
      path.length ≤ m.weight + 1 := by
  -- on the weight, since a move may put a window in front of the others
  induction hn : m.weight using Nat.strong_induction_on generalizing m with
  | _ n ih =>
  subst hn
  obtain ⟨_ | ⟨w, ws⟩, spliced, s⟩ := m
  · refine ⟨[⟨[], spliced, s⟩], ?_, by simp⟩
    change Runs ctx program _ _ (Machine.run ctx [] s).value
    rw [Machine.run_nil]
    exact .ended
  · obtain ⟨r, hstep, hsimulates⟩ := exists_step h
    change ∃ path, Runs ctx program _ path
      (Machine.run ctx (w.frame :: ws.map Window.frame) s).value ∧ _
    rw [Machine.run_value, ← hsimulates.machine]
    cases r with
    | error failure => exact ⟨[_], .failed hstep, by simp⟩
    | ok next =>
      have hfollows := hsimulates.follows next rfl
      have hweight := weight_lt_of_follows hfollows
      obtain ⟨path, hruns, hlength⟩ := ih next.weight hweight next (h.of_follows hfollows) rfl
      exact ⟨_ :: path, .goesOn hstep hruns, Nat.succ_le_succ (hlength.trans hweight)⟩

namespace Runs

variable {path path' : List Walk} {outcome outcome' : Except Failure Stack}

/-- There is one run from a state. -/
theorem unique (h : Runs ctx program m path outcome) (h' : Runs ctx program m path' outcome') :
    path' = path ∧ outcome' = outcome := by
  induction h generalizing path' outcome' with
  | ended =>
    cases h'
    exact ⟨rfl, rfl⟩
  | failed hstep =>
    cases h' with
    | failed hstep' =>
      cases hstep.symm.trans hstep'
      exact ⟨rfl, rfl⟩
    | goesOn hstep' => cases hstep.symm.trans hstep'
  | goesOn hstep _ ih =>
    cases h' with
    | failed hstep' => cases hstep.symm.trans hstep'
    | goesOn hstep' hrest' =>
      cases hstep.symm.trans hstep'
      obtain ⟨rfl, rfl⟩ := ih hrest'
      exact ⟨rfl, rfl⟩

theorem exists_eq_cons (h : Runs ctx program m path outcome) : ∃ rest, path = m :: rest := by
  cases h <;> exact ⟨_, rfl⟩

/-- The states of a run by index are those of the run, one step after the other. -/
theorem isChain (hruns : Runs ctx program m path outcome)
    (h : Nest program m.spliced m.windows) :
    (path.map machine).IsChain (Machine.StepsTo ctx) := by
  induction hruns with
  | ended => exact .singleton _
  | failed => exact .singleton _
  | goesOn hstep hrest ih =>
    have hchain := ih (h.of_follows (follows_of_step h hstep))
    obtain ⟨rest, rfl⟩ := hrest.exists_eq_cons
    exact .cons_cons (stepsTo_of_step h hstep) hchain

/-- What the moves preserve holds in all states of a run. -/
theorem forall_mem {p : Walk → Prop} (hp : ∀ {m next}, Follows program m next → p m → p next)
    (hruns : Runs ctx program m path outcome) (hm : p m)
    (h : Nest program m.spliced m.windows) :
    ∀ m ∈ path, p m ∧ Nest program m.spliced m.windows := by
  induction hruns with
  | ended => exact List.forall_mem_singleton.mpr ⟨hm, h⟩
  | failed => exact List.forall_mem_singleton.mpr ⟨hm, h⟩
  | goesOn hstep _ ih =>
    have hfollows := follows_of_step h hstep
    exact List.forall_mem_cons.mpr ⟨⟨hm, h⟩, ih (hp hfollows hm) (h.of_follows hfollows)⟩

/-- The instructions that a run reads are ahead at its start, and each is read before the next. -/
theorem places (hruns : Runs ctx program m path outcome)
    (h : Nest program m.spliced m.windows) :
    (∀ place ∈ path.filterMap place?, m.Ahead place) ∧
      (path.filterMap place?).Pairwise Before := by
  have hlast : ∀ m : Walk, (∀ place ∈ [m].filterMap place?, m.Ahead place) ∧
      ([m].filterMap place?).Pairwise Before := by
    intro m
    cases hplace : m.place? with
    | none => simp [hplace]
    | some place => simpa [hplace] using ahead_of_place? hplace
  induction hruns with
  | ended => exact hlast _
  | failed => exact hlast _
  | @goesOn w ws spliced s next path outcome hstep _ ih =>
    have hfollows := follows_of_step h hstep
    obtain ⟨hahead, hpairwise⟩ := ih (h.of_follows hfollows)
    have hrest : ∀ place ∈ path.filterMap place?, Ahead ⟨w :: ws, spliced, s⟩ place :=
      fun place hmem => ahead_of_follows hfollows (hahead place hmem)
    cases hplace : place? ⟨w :: ws, spliced, s⟩ with
    | none =>
      rw [List.filterMap_cons_none hplace]
      exact ⟨hrest, hpairwise⟩
    | some place =>
      rw [List.filterMap_cons_some hplace]
      refine ⟨List.forall_mem_cons.mpr ⟨ahead_of_place? hplace, hrest⟩,
        List.pairwise_cons.mpr ⟨fun other hmem => ?_, hpairwise⟩⟩
      exact before_of_follows h hfollows hplace (hahead other hmem)

end Runs

theorem Before.ne {place other : Origin × ℕ} (h : Before place other) : place ≠ other := by
  rintro rfl
  rcases h with ⟨-, hlt⟩ | ⟨hprogram, hredeem⟩
  · exact lt_irrefl _ hlt
  · cases hprogram.symm.trans hredeem

theorem machine_start (program : Script) : (start program).machine = Machine.start program :=
  congrArg (fun f => (⟨[f], Stack.empty⟩ : Machine)) (frame_whole .program program)

end Walk

/-! ## Programs -/

/-- The run of a program by index has one path, which comes to an end without a fault. It takes the
steps of the run of the program, and has its outcome. No instruction of the program or of a redeem
script is read twice, at most one redeem script is entered, and in each state the windows lie in
each other, between indices of their scripts. -/
theorem Script.run_walks (ctx : Context) (program : Script) :
    ∃ path,
      (∀ path' outcome, Walk.Runs ctx program (Walk.start program) path' outcome ↔
        path' = path ∧ outcome = (program.run ctx).value) ∧
      (path.map Walk.machine).IsChain (Machine.StepsTo ctx) ∧
      path.length ≤ program.length + 523 ∧
      (path.filterMap Walk.place?).Nodup ∧
      ∀ m ∈ path, m.spliced.length ≤ 1 ∧ Nest program m.spliced m.windows ∧
        ∀ w ∈ m.windows, w.next ≤ w.stop ∧ w.stop ≤ w.script.length := by
  have hnest : Nest program [] (Walk.start program).windows :=
    .root (Nat.zero_le _) fun h => absurd rfl h
  obtain ⟨path, hruns, hlength⟩ := @Walk.exists_runs ctx program (Walk.start program) hnest
  rw [Walk.machine_start] at hruns
  refine ⟨path, fun path' outcome => ⟨fun h => hruns.unique h, ?_⟩, hruns.isChain hnest, hlength,
    ?_, fun m hm => ?_⟩
  · rintro ⟨rfl, rfl⟩
    exact hruns
  · exact (hruns.places hnest).2.imp Walk.Before.ne
  · obtain ⟨hspliced, hm⟩ :=
      hruns.forall_mem Walk.length_spliced_of_follows (Nat.zero_le 1) hnest m hm
    exact ⟨hspliced, hm, hm.le_of_mem⟩

end CoinSpend
