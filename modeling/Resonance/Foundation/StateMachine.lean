import Mathlib.Data.Nat.Notation
import Mathlib.Logic.Basic

/-!
Labelled machines and the runs they make.

A run keeps every transition it took, with the state before and after it, so
that a property of histories (what was released, what was executed twice) is a
property of a list. The rules at the end are the only inductions over runs the
rest of the development uses: an invariant is shown for the initial states and
for one step.
-/
namespace StateMachine
universe u v
variable {σ : Type u} {ℓ : Type v}

structure Machine (σ : Type u) (ℓ : Type v) where
  init : σ → Prop
  step : σ → ℓ → σ → Prop

structure Transition (σ : Type u) (ℓ : Type v) where
  pre : σ
  label : ℓ
  post : σ

/-- The transitions taken so far, oldest first, and the state they lead to. -/
inductive Run (M : Machine σ ℓ) : List (Transition σ ℓ) → σ → Prop
  | start {s : σ} : M.init s → Run M [] s
  | extend {τ : List (Transition σ ℓ)} {s s' : σ} {l : ℓ} :
      Run M τ s → M.step s l s' → Run M (τ ++ [⟨s, l, s'⟩]) s'

def Reachable (M : Machine σ ℓ) (s : σ) : Prop := ∃ τ, Run M τ s

/-- The same machine, taking only the steps the guard admits in the state
before them. -/
def Machine.restrict (M : Machine σ ℓ) (guard : σ → ℓ → Prop) : Machine σ ℓ where
  init := M.init
  step s l s' := guard s l ∧ M.step s l s'

theorem Reachable.start {M : Machine σ ℓ} {s : σ} (h : M.init s) : Reachable M s :=
  ⟨[], .start h⟩

theorem Reachable.next {M : Machine σ ℓ} {s s' : σ} {l : ℓ}
    (h : Reachable M s) (hs : M.step s l s') : Reachable M s' := by
  obtain ⟨τ, run⟩ := h
  exact ⟨_, run.extend hs⟩

/-- A history predicate that holds of the empty history and survives one more
transition holds of every run. -/
theorem Run.history {M : Machine σ ℓ} {P : List (Transition σ ℓ) → σ → Prop}
    (start : ∀ s, M.init s → P [] s)
    (next : ∀ τ s l s', Run M τ s → P τ s → M.step s l s' → P (τ ++ [⟨s, l, s'⟩]) s')
    {τ : List (Transition σ ℓ)} {s : σ} (run : Run M τ s) : P τ s := by
  induction run with
  | start h => exact start _ h
  | extend run hs ih => exact next _ _ _ _ run ih hs

/-- The step may use that the state before it is reachable, hence every
invariant proved earlier. -/
theorem Reachable.invariant {M : Machine σ ℓ} {I : σ → Prop}
    (start : ∀ s, M.init s → I s)
    (next : ∀ s l s', Reachable M s → I s → M.step s l s' → I s')
    {s : σ} (h : Reachable M s) : I s := by
  obtain ⟨τ, run⟩ := h
  exact run.history (P := fun _ s => I s) start
    (fun τ s l s' run ih hs => next s l s' ⟨τ, run⟩ ih hs)

theorem Run.init {M : Machine σ ℓ} {s : σ} (run : Run M [] s) : M.init s := by
  generalize none : [] = τ at run
  cases run with
  | start h => exact h
  | extend run hs => simp at none

theorem Run.mem_step {M : Machine σ ℓ} {τ : List (Transition σ ℓ)} {s : σ}
    (run : Run M τ s) : ∀ t ∈ τ, Reachable M t.pre ∧ M.step t.pre t.label t.post := by
  induction run with
  | start h => simp
  | extend run hs ih =>
      intro t ht
      rcases List.mem_append.mp ht with h | h
      · exact ih t h
      · obtain rfl := List.mem_singleton.mp h
        exact ⟨⟨_, run⟩, hs⟩

/-- A run up to one of its transitions is a run. -/
theorem Run.upTo {M : Machine σ ℓ} {τ τ₁ τ₂ : List (Transition σ ℓ)} {t : Transition σ ℓ} {s : σ}
    (run : Run M τ s) (split : τ = τ₁ ++ t :: τ₂) :
    Run M τ₁ t.pre ∧ M.step t.pre t.label t.post := by
  induction run generalizing τ₂ with
  | start h => simp at split
  | @extend τ s s' l run hs ih =>
      cases List.eq_nil_or_concat τ₂ with
      | inl empty =>
          subst empty
          obtain ⟨rfl, last⟩ := List.append_inj' split rfl
          obtain rfl := (List.cons.inj last).1
          exact ⟨run, hs⟩
      | inr longer =>
          obtain ⟨τ₂, u, rfl⟩ := longer
          rw [List.concat_eq_append, ← List.cons_append, ← List.append_assoc] at split
          exact ih (List.append_inj' split rfl).1

theorem Run.before {M : Machine σ ℓ} {τ τ₁ τ₂ : List (Transition σ ℓ)} {s : σ}
    (run : Run M τ s) (split : τ = τ₁ ++ τ₂) : ∃ r, Run M τ₁ r := by
  cases τ₂ with
  | nil =>
      rw [List.append_nil] at split
      exact ⟨s, split ▸ run⟩
  | cons t τ₂ => exact ⟨t.pre, (run.upTo split).1⟩

/-- What the steps of a kind relate, a run relates from any of its states on, if it
takes no other steps from there. -/
theorem Run.since {M : Machine σ ℓ} {G : Transition σ ℓ → Prop} {R : σ → σ → Prop}
    (trans : ∀ r s t, R r s → R s t → R r t)
    (next : ∀ s l s', Reachable M s → M.step s l s' → G ⟨s, l, s'⟩ → R s s')
    {τ τ₁ τ₂ : List (Transition σ ℓ)} {t : Transition σ ℓ} {s : σ} (run : Run M τ s)
    (split : τ = τ₁ ++ t :: τ₂) (guarded : ∀ u ∈ t :: τ₂, G u) : R t.pre s := by
  induction run generalizing τ₂ with
  | start h => simp at split
  | @extend τ s s' l run hs ih =>
      have step : G ⟨s, l, s'⟩ → R s s' := next s l s' ⟨τ, run⟩ hs
      cases List.eq_nil_or_concat τ₂ with
      | inl empty =>
          subst empty
          obtain ⟨rfl, same⟩ := List.append_inj' split rfl
          obtain rfl := (List.cons.inj same).1
          exact step (guarded _ List.mem_cons_self)
      | inr longer =>
          obtain ⟨τ₂, u, rfl⟩ := longer
          rw [List.concat_eq_append, ← List.cons_append, ← List.append_assoc] at split
          obtain ⟨rest, same⟩ := List.append_inj' split rfl
          obtain rfl := (List.cons.inj same).1
          rw [List.concat_eq_append, ← List.cons_append, List.forall_mem_append] at guarded
          exact trans _ _ _ (ih rest guarded.1) (step (guarded.2 _ List.mem_cons_self))

theorem getElem?_snoc {τ : List (Transition σ ℓ)} {t u : Transition σ ℓ} {i : ℕ}
    (h : (τ ++ [t])[i]? = some u) : τ[i]? = some u ∨ i = τ.length ∧ u = t := by
  rcases Nat.lt_trichotomy i τ.length with lt | rfl | gt
  · rw [List.getElem?_append_left lt] at h
    exact .inl h
  · rw [List.getElem?_concat_length] at h
    exact .inr ⟨rfl, (Option.some.inj h).symm⟩
  · have beyond : (τ ++ [t]).length ≤ i := by
      rw [List.length_append, List.length_singleton]
      exact gt
    rw [List.getElem?_eq_none beyond] at h
    cases h

theorem getElem?_snoc_of_some {τ : List (Transition σ ℓ)} {t u : Transition σ ℓ} {i : ℕ}
    (h : τ[i]? = some u) : (τ ++ [t])[i]? = some u := by
  rw [List.getElem?_append_left (List.getElem?_eq_some_iff.mp h).1, h]

theorem forall_mem_snoc {P : Transition σ ℓ → Prop} {τ : List (Transition σ ℓ)} {t : Transition σ ℓ}
    (earlier : ∀ u ∈ τ, P u) (last : P t) : ∀ u ∈ τ ++ [t], P u := by
  intro u hu
  rw [List.mem_append, List.mem_singleton] at hu
  cases hu with
  | inl before => exact earlier u before
  | inr same => rwa [same]

/-- A history predicate of the runs in which every transition meets a guard. -/
theorem Run.guarded_history {M : Machine σ ℓ} {G : Transition σ ℓ → Prop}
    {P : List (Transition σ ℓ) → σ → Prop} (start : ∀ s, M.init s → P [] s)
    (next : ∀ τ s l s', P τ s → G ⟨s, l, s'⟩ → M.step s l s' → P (τ ++ [⟨s, l, s'⟩]) s')
    {τ : List (Transition σ ℓ)} {s : σ} (run : Run M τ s) (guarded : ∀ t ∈ τ, G t) : P τ s := by
  induction run with
  | start h => exact start _ h
  | @extend τ s s' l run hs ih =>
      have last : G ⟨s, l, s'⟩ := guarded _ (List.mem_append_right _ (List.mem_singleton_self _))
      exact next _ _ _ _ (ih fun t ht => guarded t (List.mem_append_left _ ht)) last hs

/-- An invariant of the guarded runs, and what it makes true of each transition. -/
theorem Run.guarded_steps {M : Machine σ ℓ} {G Q : Transition σ ℓ → Prop} {I : σ → Prop}
    (start : ∀ s, M.init s → I s)
    (next : ∀ s l s', I s → G ⟨s, l, s'⟩ → M.step s l s' → I s' ∧ Q ⟨s, l, s'⟩)
    {τ : List (Transition σ ℓ)} {s : σ} (run : Run M τ s) (guarded : ∀ t ∈ τ, G t) :
    I s ∧ ∀ t ∈ τ, Q t := by
  refine run.guarded_history (P := fun τ s => I s ∧ ∀ t ∈ τ, Q t) ?_ ?_ guarded
  · exact fun s h => ⟨start s h, fun t ht => nomatch ht⟩
  · intro τ s l s' ⟨inv, earlier⟩ guard hs
    obtain ⟨inv', last⟩ := next s l s' inv guard hs
    exact ⟨inv', forall_mem_snoc earlier last⟩

/-- Where an invariant survives exactly the steps that meet a condition, it holds all
along a run exactly if every step of the run meets the condition. -/
theorem Run.forall_post_iff {M : Machine σ ℓ} {I : σ → Prop} {G : σ → ℓ → Prop}
    (start : ∀ s, M.init s → I s)
    (next : ∀ s l s', Reachable M s → I s → M.step s l s' → (I s' ↔ G s l))
    {τ : List (Transition σ ℓ)} {s : σ} (run : Run M τ s) :
    (∀ t ∈ τ, I t.post) ↔ ∀ t ∈ τ, G t.pre t.label := by
  have both : ((∀ t ∈ τ, I t.post) → I s) ∧
      ((∀ t ∈ τ, I t.post) ↔ ∀ t ∈ τ, G t.pre t.label) := by
    induction run with
    | start h => exact ⟨fun _ => start _ h, by simp⟩
    | @extend τ s s' l run hs ih =>
        obtain ⟨last, same⟩ := ih
        simp only [List.forall_mem_append, List.forall_mem_singleton, ← same]
        exact ⟨And.right, and_congr_right fun inv => next s l s' ⟨τ, run⟩ (last inv) hs⟩
  exact both.2

/-- The transitions that an executable step function takes on a list of labels. -/
def trace (next : σ → ℓ → σ) (s : σ) : List ℓ → List (Transition σ ℓ)
  | [] => []
  | l :: ls => ⟨s, l, next s l⟩ :: trace next (next s l) ls

theorem label_of_mem_trace {next : σ → ℓ → σ} {ls : List ℓ} {s : σ} :
    ∀ t ∈ trace next s ls, t.label ∈ ls := by
  induction ls generalizing s with
  | nil => exact fun t none => nomatch none
  | cons l ls ih =>
      rw [trace, List.forall_mem_cons]
      exact ⟨List.mem_cons_self, fun t ht => List.mem_cons_of_mem _ (ih t ht)⟩

/-- Runs of a machine whose steps are executable can be executed. -/
theorem Run.execute {M : Machine σ ℓ} {next : σ → ℓ → σ} {ls : List ℓ}
    {τ : List (Transition σ ℓ)} {s : σ}
    (steps : ∀ t ∈ trace next s ls, M.step t.pre t.label (next t.pre t.label))
    (run : Run M τ s) : Run M (τ ++ trace next s ls) (ls.foldl next s) := by
  induction ls generalizing τ s with
  | nil =>
      rw [trace, List.append_nil]
      exact run
  | cons l ls ih =>
      rw [trace, List.forall_mem_cons] at steps
      rw [trace, List.append_cons]
      exact ih steps.2 (run.extend steps.1)

theorem Run.of_restrict {M : Machine σ ℓ} {guard : σ → ℓ → Prop}
    {τ : List (Transition σ ℓ)} {s : σ} (run : Run (M.restrict guard) τ s) : Run M τ s := by
  induction run with
  | start h => exact .start h
  | extend run hs ih => exact ih.extend hs.2

theorem Reachable.of_restrict {M : Machine σ ℓ} {guard : σ → ℓ → Prop} {s : σ}
    (h : Reachable (M.restrict guard) s) : Reachable M s := by
  obtain ⟨τ, run⟩ := h
  exact ⟨τ, run.of_restrict⟩

end StateMachine
