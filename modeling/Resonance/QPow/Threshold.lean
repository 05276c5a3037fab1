import Resonance.QPow.Blocks

/-!
The threshold stays in range and the work adds up.

The configuration is assumed to leave room above the initial threshold: four
times it still fits a `U512`. Clamping then keeps every corrected threshold
between the least and the largest distance whatever the arithmetic before it
loses, so the difficulty divides by a positive number and every finalised block
adds to the total work.
-/
namespace Resonance.QPow
open Storage MachineInt FixedU128 StateMachine

/-- Four times the initial threshold fits a `U512`. -/
def Config.Fits (cfg : Config) : Prop := cfg.initialDistanceThresholdExponent ≤ 509

variable {cfg : Config} {block : Block} {s s' : State}

/-- Two more bits than the exponent has fit a `U512`. -/
theorem Config.Fits.four_mul_lt (fits : cfg.Fits) :
    4 * 2 ^ cfg.initialDistanceThresholdExponent < 2 ^ 512 := by
  have small := Nat.pow_le_pow_right Nat.two_pos fits
  calc 4 * 2 ^ cfg.initialDistanceThresholdExponent ≤ 4 * 2 ^ 509 := Nat.mul_le_mul_left 4 small
    _ < 2 ^ 512 := by decide +kernel

theorem Config.Fits.initial_eq (fits : cfg.Fits) :
    getInitialDistanceThreshold cfg = 2 ^ cfg.initialDistanceThresholdExponent := by
  have bits := fits.four_mul_lt
  rw [getInitialDistanceThreshold, shl_eq (by omega), one_mul]

theorem Config.Fits.max_eq (fits : cfg.Fits) :
    getMaxDistance cfg = 4 * getInitialDistanceThreshold cfg := by
  have bits := fits.four_mul_lt
  rw [← fits.initial_eq] at bits
  rw [getMaxDistance, shl_eq (by omega)]
  omega

theorem Config.Fits.initial_pos (fits : cfg.Fits) : 0 < getInitialDistanceThreshold cfg := by
  rw [fits.initial_eq]
  exact Nat.two_pow_pos _

/-- The threshold lies between the least and the largest distance. -/
def InRange (cfg : Config) (threshold : ℕ) : Prop :=
  getMinDistance ≤ threshold ∧ threshold ≤ getMaxDistance cfg

theorem Config.Fits.inRange_initial (fits : cfg.Fits) :
    InRange cfg (getInitialDistanceThreshold cfg) := by
  have := fits.initial_pos
  have := fits.max_eq
  simp only [InRange, getMinDistance]
  omega

theorem Config.Fits.inRange_adjusted (fits : cfg.Fits) {threshold : ℕ} (one ratio : ℕ)
    (old : InRange cfg threshold) :
    InRange cfg (adjustedDistanceThreshold cfg threshold one ratio) := by
  have initial := fits.inRange_initial
  have below := initial.1.trans initial.2
  dsimp only [adjustedDistanceThreshold]
  split
  · exact old
  · split
    · exact ⟨le_rfl, below⟩
    · split
      · exact ⟨below, le_rfl⟩
      · exact ⟨by omega, by omega⟩

theorem Config.Fits.inRange_calculated (fits : cfg.Fits) {threshold observed target new : ℕ}
    (old : InRange cfg threshold)
    (h : calculateDistanceThreshold cfg threshold observed target = .ok new) :
    InRange cfg new := by
  simp only [calculateDistanceThreshold, bind_eq_ok_iff] at h
  obtain ⟨clamp, -, one, -, quotient, -, h⟩ := h
  cases h
  exact fits.inRange_adjusted one _ old

theorem getDifficulty_of_inRange (range : InRange cfg s.currentDistanceThreshold) :
    getDifficulty cfg s = .ok (getMaxDistance cfg / s.currentDistanceThreshold) := by
  have pos : s.currentDistanceThreshold ≠ 0 := Nat.ne_of_gt range.1
  rw [getDifficulty, getDistanceThreshold, if_neg pos, div_eq_ok_iff]
  exact ⟨pos, rfl⟩

theorem one_le_work {threshold : ℕ} (range : InRange cfg threshold) :
    1 ≤ getMaxDistance cfg / threshold :=
  Nat.div_pos range.2 range.1

theorem Config.Fits.inRange_idled (fits : cfg.Fits)
    (range : InRange cfg s.currentDistanceThreshold) :
    InRange cfg (s.idled cfg block).currentDistanceThreshold := by
  simp only [State.idled]
  split
  · exact fits.inRange_initial
  · exact range

theorem Config.Fits.inRange_finalised (fits : cfg.Fits)
    (range : InRange cfg s.currentDistanceThreshold) (h : Finalised cfg block s s') :
    InRange cfg s'.currentDistanceThreshold := by
  have threshold := h.threshold
  split at threshold
  · exact fits.inRange_calculated range threshold
  · rwa [threshold]

/-- The work a hook call adds: none by `on_idle`, and by `on_finalize` the
largest distance divided by the threshold in force. -/
def finalisedWork (cfg : Config) (t : Transition Chain Hook) : ℕ :=
  match t.label with
  | .onIdle _ => 0
  | .onFinalize _ => getMaxDistance cfg / t.pre.state.currentDistanceThreshold

/-- What a run of the hooks has established. -/
structure WorkHistory (cfg : Config) (τ : List (Transition Chain Hook)) (c : Chain) : Prop where
  range : InRange cfg c.state.currentDistanceThreshold
  total : c.state.totalWork = min (1 + (τ.map (finalisedWork cfg)).sum) (maxValue 512)
  grows : ∀ t ∈ τ, (∃ block, t.label = .onFinalize block) →
    t.pre.state.totalWork < maxValue 512 → t.pre.state.totalWork < t.post.state.totalWork

theorem WorkHistory.step (fits : cfg.Fits) {τ : List (Transition Chain Hook)} {c c' : Chain}
    {hook : Hook} (history : WorkHistory cfg τ c) (step : (hooks cfg).step c hook c') :
    WorkHistory cfg (τ ++ [⟨c, hook, c'⟩]) c' := by
  cases hook with
  | onIdle block =>
      obtain ⟨-, -, run⟩ := step
      rw [exec_onIdle] at run
      have state : c'.state = c.state.idled cfg block := (congrArg Prod.snd run).symm
      refine ⟨?_, ?_, ?_⟩
      · rw [state]
        exact fits.inRange_idled history.range
      · simpa [state, finalisedWork] using history.total
      · refine forall_mem_snoc history.grows ?_
        rintro ⟨b, label⟩
        cases label
  | onFinalize block =>
      obtain ⟨-, -, run⟩ := step
      have finalised := onFinalize_ok run
      obtain ⟨w, difficulty, work⟩ := finalised.work
      rw [getDifficulty_of_inRange history.range] at difficulty
      cases difficulty
      refine ⟨fits.inRange_finalised history.range finalised, ?_, ?_⟩
      · rw [work, history.total, saturatingAdd_min]
        simp [finalisedWork, Nat.add_assoc]
      · refine forall_mem_snoc history.grows ?_
        rintro - below
        have pos := one_le_work history.range
        dsimp only at below ⊢
        rw [work, saturatingAdd]
        omega

theorem WorkHistory.of_run (fits : cfg.Fits) {τ : List (Transition Chain Hook)} {c : Chain}
    (run : Run (hooks cfg) τ c) : WorkHistory cfg τ c := by
  refine run.history (P := WorkHistory cfg) ?_ ?_
  · rintro c rfl
    refine ⟨fits.inRange_initial, ?_, fun t ht => nomatch ht⟩
    exact (min_eq_left (le_maxValue_iff.2 (Nat.one_lt_two_pow (by decide)))).symm
  · intro τ c hook c' _ history step
    exact history.step fits step

/-- In every state of a run the threshold is in range, the difficulty is a
positive quotient, and the total work is one plus the work of all finalised
blocks, so that it grows with each of them until it saturates. -/
theorem thresholdAndWork_of_run (fits : cfg.Fits) {τ : List (Transition Chain Hook)} {c : Chain}
    (run : Run (hooks cfg) τ c) :
    1 ≤ c.state.currentDistanceThreshold ∧
    c.state.currentDistanceThreshold ≤ getMaxDistance cfg ∧
    getDistanceThreshold cfg c.state ≠ 0 ∧
    (∃ difficulty, getDifficulty cfg c.state = .ok difficulty ∧ 1 ≤ difficulty) ∧
    c.state.totalWork = min (1 + (τ.map (finalisedWork cfg)).sum) (maxValue 512) ∧
    ∀ t ∈ τ, (∃ block, t.label = .onFinalize block) →
      t.pre.state.totalWork < maxValue 512 → t.pre.state.totalWork < t.post.state.totalWork := by
  have history := WorkHistory.of_run fits run
  have pos : c.state.currentDistanceThreshold ≠ 0 := Nat.ne_of_gt history.range.1
  refine ⟨history.range.1, history.range.2, ?_, ⟨_, getDifficulty_of_inRange history.range, ?_⟩,
    history.total, history.grows⟩
  · rw [getDistanceThreshold, if_neg pos]
    exact pos
  · exact one_le_work history.range

namespace Mock

def call (cfg : Config) (c : Chain) : Hook → Chain
  | .onIdle block => ⟨c.number, c.state.idled cfg block⟩
  | .onFinalize block => ⟨block.number, (exec (onFinalize cfg block) c.state).2⟩

/-- The hook is called for the next block, and does not panic. -/
def Succeeds (cfg : Config) (c : Chain) : Hook → Prop
  | .onIdle block => block.number = c.number + 1
  | .onFinalize block =>
      block.number = c.number + 1 ∧ (exec (onFinalize cfg block) c.state).1 = .ok ⟨⟩

instance {c : Chain} : DecidablePred (Succeeds cfg c)
  | .onIdle _ => inferInstanceAs (Decidable (_ = _))
  | .onFinalize _ => inferInstanceAs (Decidable (_ ∧ _))

theorem step_call {c : Chain} {hook : Hook} (succeeds : Succeeds cfg c hook) :
    (hooks cfg).step c hook (call cfg c hook) := by
  cases hook with
  | onIdle block => exact ⟨succeeds, rfl, exec_onIdle⟩
  | onFinalize block => exact ⟨succeeds.1, rfl, exec_eq_of_fst succeeds.2⟩

/-- The hooks of the mock chain's blocks, the first of which leaves weight for `on_idle`. -/
def slowHooks : List Hook :=
  .onIdle (blockAt 1 1000).toBlock :: slowBlocks.map fun block => .onFinalize block.toBlock

def slowCalls : List (Transition Chain Hook) := trace (call config) (start config) slowHooks

def slowEnd : Chain := slowHooks.foldl (call config) (start config)

theorem slowCalls_run : Run (hooks config) slowCalls slowEnd := by
  have start : Run (hooks config) [] (start config) := .start rfl
  have succeeds : ∀ t ∈ trace (call config) (Mock.start config) slowHooks,
      Succeeds config t.pre t.label := by decide +kernel
  exact start.execute fun t ht => step_call (succeeds t ht)

theorem config_fits : config.Fits := by
  simp only [Config.Fits]
  decide

end Mock

open Mock

/-- Three corrections raise the threshold, and each block still adds work. -/
theorem thresholdAndWork_of_run_corrected :
    getInitialDistanceThreshold config < slowEnd.state.currentDistanceThreshold ∧
      slowEnd.state.currentDistanceThreshold ≤ getMaxDistance config ∧
      slowEnd.state.totalWork =
        min (1 + (slowCalls.map (finalisedWork config)).sum) (maxValue 512) ∧
      ∀ t ∈ slowCalls, (∃ block, t.label = .onFinalize block) →
        t.pre.state.totalWork < maxValue 512 → t.pre.state.totalWork < t.post.state.totalWork := by
  obtain ⟨-, range, -, -, total, grows⟩ := thresholdAndWork_of_run config_fits slowCalls_run
  exact ⟨by decide +kernel, range, total, grows⟩

end Resonance.QPow
