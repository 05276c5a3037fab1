import Mathlib.Logic.Basic

/-!
Computations over a store that can fail.

An error does not undo the writes made before it: the store at the point of
failure is part of the result. Undoing them is the business of a storage
layer, `transactional`. The lemmas state, for each combinator, exactly when it
succeeds and with which store; a function written with them is then inverted
one bind at a time and never unfolded whole.
-/
universe u

/-- Failing computations over a store `σ`, the store surviving a failure. -/
abbrev Storage (ε σ : Type u) : Type u → Type u := ExceptT ε (StateM σ)

namespace Storage
variable {ε ε' σ τ α β : Type u}

/-- The outcome and the store left behind. -/
def exec (x : Storage ε σ α) (s : σ) : Except ε α × σ := (ExceptT.run x).run s

def ensure (p : Prop) [Decidable p] (e : ε) : Storage ε σ PUnit :=
  if p then pure ⟨⟩ else throw e

def okOr (o : Option α) (e : ε) : Storage ε σ α :=
  match o with
  | some a => pure a
  | none => throw e

def ofResult (r : Except ε α) : Storage ε σ α :=
  match r with
  | .ok a => pure a
  | .error e => throw e

/-- Run a computation over a part of the store. -/
def zoom (part : σ → τ) (put : τ → σ → σ) (x : Storage ε τ α) : Storage ε σ α :=
  fun s => ((exec x (part s)).1, put (exec x (part s)).2 s)

def mapError (f : ε → ε') (x : Storage ε σ α) : Storage ε' σ α :=
  fun s => match exec x s with
    | (.ok a, s') => (.ok a, s')
    | (.error e, s') => (.error (f e), s')

/-- A storage layer: a failure leaves the store as it was. -/
def transactional (x : Storage ε σ α) : Storage ε σ α :=
  fun s => match exec x s with
    | (.ok a, s') => (.ok a, s')
    | (.error e, _) => (.error e, s)

/-- The outcome as a value; the writes of a failing computation stay. -/
def attempt (x : Storage ε σ α) : Storage ε σ (Except ε α) :=
  fun s => (.ok (exec x s).1, (exec x s).2)

@[simp] theorem exec_pure (a : α) (s : σ) :
    exec (pure a : Storage ε σ α) s = (.ok a, s) := rfl

@[simp] theorem exec_throw (e : ε) (s : σ) :
    exec (throw e : Storage ε σ α) s = (.error e, s) := rfl

@[simp] theorem exec_get (s : σ) : exec (get : Storage ε σ σ) s = (.ok s, s) := rfl

@[simp] theorem exec_set (s s' : σ) :
    exec (set s' : Storage ε σ PUnit) s = (.ok ⟨⟩, s') := rfl

@[simp] theorem exec_modify (f : σ → σ) (s : σ) :
    exec (modify f : Storage ε σ PUnit) s = (.ok ⟨⟩, f s) := rfl

@[simp] theorem exec_zoom (part : σ → τ) (put : τ → σ → σ) (x : Storage ε τ α) (s : σ) :
    exec (zoom part put x) s = ((exec x (part s)).1, put (exec x (part s)).2 s) := rfl

theorem exec_eq_of_fst {x : Storage ε σ α} {s : σ} {r : Except ε α} (h : (exec x s).1 = r) :
    exec x s = (r, (exec x s).2) := by
  rw [← h]

theorem exec_bind (x : Storage ε σ α) (f : α → Storage ε σ β) (s : σ) :
    exec (x >>= f) s =
      match exec x s with
      | (.ok a, s₁) => exec (f a) s₁
      | (.error e, s₁) => (.error e, s₁) := by
  change (match x s with
    | (r, s₁) => ExceptT.bindCont f r s₁) = _
  change _ = match x s with
    | (.ok a, s₁) => exec (f a) s₁
    | (.error e, s₁) => (.error e, s₁)
  rcases x s with ⟨r | r, s₁⟩ <;> rfl

theorem exec_bind_of_ok {x : Storage ε σ α} {f : α → Storage ε σ β} {s s' : σ} {a : α}
    (h : exec x s = (.ok a, s')) : exec (x >>= f) s = exec (f a) s' := by
  rw [exec_bind, h]

theorem exec_bind_of_error {x : Storage ε σ α} {f : α → Storage ε σ β} {s s' : σ} {e : ε}
    (h : exec x s = (.error e, s')) : exec (x >>= f) s = (.error e, s') := by
  rw [exec_bind, h]

@[simp] theorem exec_map (f : α → β) (x : Storage ε σ α) (s : σ) :
    exec (f <$> x) s =
      match exec x s with
      | (.ok a, s₁) => (.ok (f a), s₁)
      | (.error e, s₁) => (.error e, s₁) := by
  rw [← bind_pure_comp, exec_bind]
  rcases exec x s with ⟨e | a, s₁⟩ <;> rfl

@[simp] theorem exec_ite {p : Prop} [Decidable p] (x y : Storage ε σ α) (s : σ) :
    exec (if p then x else y) s = if p then exec x s else exec y s :=
  apply_ite (exec · s) p x y

/-- A sequence succeeds exactly when its first part does and the rest does
from the store the first part left. -/
theorem bind_ok_iff {x : Storage ε σ α} {f : α → Storage ε σ β} {s s' : σ} {b : β} :
    exec (x >>= f) s = (.ok b, s') ↔
      ∃ a s₁, exec x s = (.ok a, s₁) ∧ exec (f a) s₁ = (.ok b, s') := by
  rw [exec_bind]
  rcases h : exec x s with ⟨e | a, s₁⟩
  · simp
  · constructor
    · intro hf
      exact ⟨a, s₁, rfl, hf⟩
    · rintro ⟨a', s₁', hx, hf⟩
      cases hx
      exact hf

/-- A sequence fails where its first part does, or where the rest does. -/
theorem bind_error_iff {x : Storage ε σ α} {f : α → Storage ε σ β} {s s' : σ} {e : ε} :
    exec (x >>= f) s = (.error e, s') ↔ exec x s = (.error e, s') ∨
      ∃ a s₁, exec x s = (.ok a, s₁) ∧ exec (f a) s₁ = (.error e, s') := by
  rw [exec_bind]
  rcases h : exec x s with ⟨e | a, s₁⟩
  · simp
  · constructor
    · intro hf
      exact .inr ⟨a, s₁, rfl, hf⟩
    · rintro (failed | ⟨a', s₁', hx, hf⟩)
      · cases failed
      · cases hx
        exact hf

theorem map_ok_iff {f : α → β} {x : Storage ε σ α} {s s' : σ} {b : β} :
    exec (f <$> x) s = (.ok b, s') ↔ ∃ a, exec x s = (.ok a, s') ∧ f a = b := by
  rw [exec_map]
  rcases exec x s with ⟨e | a, s₁⟩
  · simp
  · constructor
    · intro h
      cases h
      exact ⟨a, rfl, rfl⟩
    · rintro ⟨a', h, rfl⟩
      cases h
      rfl

theorem map_error_iff {f : α → β} {x : Storage ε σ α} {s s' : σ} {e : ε} :
    exec (f <$> x) s = (.error e, s') ↔ exec x s = (.error e, s') := by
  rw [exec_map]
  rcases exec x s with ⟨e | a, s₁⟩
  · simp
  · simp

theorem ensure_ok_iff {p : Prop} [Decidable p] {e : ε} {s s' : σ} {a : PUnit} :
    exec (ensure p e : Storage ε σ PUnit) s = (.ok a, s') ↔ p ∧ s = s' := by
  by_cases h : p <;> simp [ensure, h]

theorem okOr_ok_iff {o : Option α} {e : ε} {s s' : σ} {a : α} :
    exec (okOr o e : Storage ε σ α) s = (.ok a, s') ↔ o = some a ∧ s = s' := by
  cases o <;> simp [okOr]

theorem ofResult_ok_iff {r : Except ε α} {s s' : σ} {a : α} :
    exec (ofResult r : Storage ε σ α) s = (.ok a, s') ↔ r = .ok a ∧ s = s' := by
  cases r <;> simp [ofResult]

@[simp] theorem exec_get_bind (f : σ → Storage ε σ β) (s : σ) :
    exec (get >>= f) s = exec (f s) s := by
  rw [exec_bind, exec_get]

@[simp] theorem exec_modify_bind (g : σ → σ) (f : PUnit → Storage ε σ β) (s : σ) :
    exec (modify g >>= f) s = exec (f ⟨⟩) (g s) := by
  rw [exec_bind, exec_modify]

@[simp] theorem exec_attempt_bind (x : Storage ε σ α) (f : Except ε α → Storage ε σ β) (s : σ) :
    exec (attempt x >>= f) s = exec (f (exec x s).1) (exec x s).2 :=
  exec_bind (attempt x) f s

theorem ensure_bind_ok_iff {p : Prop} [Decidable p] {e : ε} {f : PUnit → Storage ε σ β}
    {s s' : σ} {b : β} :
    exec (ensure p e >>= f) s = (.ok b, s') ↔ p ∧ exec (f ⟨⟩) s = (.ok b, s') := by
  by_cases h : p <;> simp [ensure, h]

theorem exec_ensure_bind {p : Prop} [Decidable p] {e : ε} {f : PUnit → Storage ε σ β} {s : σ}
    (h : p) : exec (ensure p e >>= f) s = exec (f ⟨⟩) s := by
  rw [ensure, if_pos h, pure_bind]

theorem okOr_bind_ok_iff {o : Option α} {e : ε} {f : α → Storage ε σ β} {s s' : σ} {b : β} :
    exec (okOr o e >>= f) s = (.ok b, s') ↔ ∃ a, o = some a ∧ exec (f a) s = (.ok b, s') := by
  cases o <;> simp [okOr]

theorem ofResult_bind_ok_iff {r : Except ε α} {f : α → Storage ε σ β} {s s' : σ} {b : β} :
    exec (ofResult r >>= f) s = (.ok b, s') ↔ ∃ a, r = .ok a ∧ exec (f a) s = (.ok b, s') := by
  cases r <;> simp [ofResult]

theorem zoom_ok_iff {part : σ → τ} {put : τ → σ → σ} {x : Storage ε τ α} {s s' : σ} {a : α} :
    exec (zoom part put x) s = (.ok a, s') ↔
      ∃ t, exec x (part s) = (.ok a, t) ∧ put t s = s' := by
  rw [exec_zoom]
  rcases exec x (part s) with ⟨r, t⟩
  constructor
  · intro h
    cases h
    exact ⟨t, rfl, rfl⟩
  · rintro ⟨t', h, rfl⟩
    cases h
    rfl

theorem exec_mapError (f : ε → ε') (x : Storage ε σ α) (s : σ) :
    exec (mapError f x) s =
      match exec x s with
      | (.ok a, s') => (.ok a, s')
      | (.error e, s') => (.error (f e), s') := rfl

theorem mapError_ok_iff {f : ε → ε'} {x : Storage ε σ α} {s s' : σ} {a : α} :
    exec (mapError f x) s = (.ok a, s') ↔ exec x s = (.ok a, s') := by
  rw [exec_mapError]
  rcases exec x s with ⟨e | b, t⟩ <;> simp

theorem exec_mapError_fst (f : ε → ε') (x : Storage ε σ α) (s : σ) :
    (exec (mapError f x) s).1 = (exec x s).1.mapError f := by
  rw [exec_mapError]
  rcases exec x s with ⟨e | a, t⟩ <;> rfl

theorem exec_transactional (x : Storage ε σ α) (s : σ) :
    exec (transactional x) s =
      match exec x s with
      | (.ok a, s') => (.ok a, s')
      | (.error e, _) => (.error e, s) := rfl

/-- Under a storage layer the store moves only if the computation succeeds. -/
theorem transactional_cases (x : Storage ε σ α) (s : σ) :
    (∃ a s', exec x s = (.ok a, s') ∧ exec (transactional x) s = (.ok a, s')) ∨
    (∃ e s', exec x s = (.error e, s') ∧ exec (transactional x) s = (.error e, s)) := by
  rw [exec_transactional]
  rcases exec x s with ⟨e | a, s'⟩
  · exact .inr ⟨e, s', rfl, rfl⟩
  · exact .inl ⟨a, s', rfl, rfl⟩

theorem eq_of_transactional_error {x : Storage ε σ α} {s s' : σ} {e : ε}
    (h : exec (transactional x) s = (.error e, s')) : s' = s := by
  cases transactional_cases x s with
  | inl ok =>
      obtain ⟨a, t, -, run⟩ := ok
      cases run.symm.trans h
  | inr failed =>
      obtain ⟨e', t, -, run⟩ := failed
      cases run.symm.trans h
      rfl

theorem transactional_ok_iff {x : Storage ε σ α} {s s' : σ} {a : α} :
    exec (transactional x) s = (.ok a, s') ↔ exec x s = (.ok a, s') := by
  rw [exec_transactional]
  rcases exec x s with ⟨e | b, t⟩ <;> simp

/-- A part of the store is left alone, whatever the outcome. -/
def Keeps (part : σ → τ) (x : Storage ε σ α) : Prop := ∀ s, part (exec x s).2 = part s

section
variable {part : σ → τ}

theorem Keeps.pure (a : α) : Keeps part (pure a : Storage ε σ α) := fun _ => rfl

theorem Keeps.throw (e : ε) : Keeps part (throw e : Storage ε σ α) := fun _ => rfl

theorem Keeps.get : Keeps part (get : Storage ε σ σ) := fun _ => rfl

theorem Keeps.modify {f : σ → σ} (h : ∀ s, part (f s) = part s) :
    Keeps part (modify f : Storage ε σ PUnit) := h

theorem Keeps.okOr (o : Option α) (e : ε) : Keeps part (okOr o e : Storage ε σ α) := by
  cases o with
  | none => exact Keeps.throw e
  | some a => exact Keeps.pure a

theorem Keeps.ofResult (r : Except ε α) : Keeps part (ofResult r : Storage ε σ α) := by
  cases r with
  | error e => exact Keeps.throw e
  | ok a => exact Keeps.pure a

theorem Keeps.bind {x : Storage ε σ α} {f : α → Storage ε σ β} (hx : Keeps part x)
    (hf : ∀ a, Keeps part (f a)) : Keeps part (x >>= f) := by
  intro s
  have first := hx s
  rw [exec_bind]
  rcases run : exec x s with ⟨e | a, s₁⟩
  · rwa [run] at first
  · rw [run] at first
    exact (hf a s₁).trans first

theorem Keeps.ite {p : Prop} [Decidable p] {x y : Storage ε σ α} (hx : Keeps part x)
    (hy : Keeps part y) : Keeps part (if p then x else y) := by
  split
  · exact hx
  · exact hy

theorem Keeps.ensure (p : Prop) [Decidable p] (e : ε) :
    Keeps part (ensure p e : Storage ε σ PUnit) :=
  Keeps.ite (Keeps.pure PUnit.unit) (Keeps.throw e)

theorem Keeps.foldlM {f : β → α → Storage ε σ β} (hf : ∀ b a, Keeps part (f b a)) (l : List α)
    (b : β) : Keeps part (l.foldlM f b) := by
  induction l generalizing b with
  | nil => exact Keeps.pure b
  | cons a l ih =>
      rw [List.foldlM_cons]
      exact (hf b a).bind fun b => ih b

end

/-- There is no failure. -/
def Total (x : Storage ε σ α) : Prop := ∀ s, ∃ a s', exec x s = (.ok a, s')

section
variable {x : Storage ε σ α} {f : α → Storage ε σ β}

theorem Total.pure (a : α) : Total (pure a : Storage ε σ α) := fun s => ⟨a, s, rfl⟩

theorem Total.get : Total (get : Storage ε σ σ) := fun s => ⟨s, s, rfl⟩

theorem Total.set (s : σ) : Total (set s : Storage ε σ PUnit) := fun _ => ⟨⟨⟩, s, rfl⟩

theorem Total.modify (f : σ → σ) : Total (modify f : Storage ε σ PUnit) :=
  fun s => ⟨⟨⟩, f s, rfl⟩

theorem Total.attempt (x : Storage ε σ α) : Total (attempt x) :=
  fun s => ⟨(exec x s).1, (exec x s).2, rfl⟩

theorem Total.bind (first : Total x) (rest : ∀ a, Total (f a)) : Total (x >>= f) := by
  intro s
  obtain ⟨a, s₁, run⟩ := first s
  rw [exec_bind_of_ok run]
  exact rest a s₁

theorem Total.ite {p : Prop} [Decidable p] {y : Storage ε σ α} (yes : Total x) (no : Total y) :
    Total (if p then x else y) := by
  split
  · exact yes
  · exact no

/-- A failure that is made good with a value is none. -/
theorem Total.recover (x : Storage ε σ α) {g : Except ε α → Storage ε σ β} {h : α → β} {b : β}
    (ok : ∀ a, g (.ok a) = Pure.pure (h a)) (error : ∀ e, g (.error e) = Pure.pure b) :
    Total (Storage.attempt x >>= g) := by
  refine .bind (.attempt x) fun r => ?_
  cases r with
  | ok a =>
      rw [ok]
      exact .pure (h a)
  | error e =>
      rw [error]
      exact .pure b

end

/-- A failure leaves the store as it was. -/
def Atomic (x : Storage ε σ α) (s : σ) : Prop := ∀ e s', exec x s = (.error e, s') → s' = s

section
variable {x : Storage ε σ α} {f : α → Storage ε σ β} {s : σ}

theorem Atomic.of_ok {a : α} {s' : σ} (run : exec x s = (.ok a, s')) : Atomic x s := by
  intro e t failed
  cases run.symm.trans failed

theorem Atomic.of_total (total : Total x) : Atomic x s := by
  obtain ⟨a, s', run⟩ := total s
  exact .of_ok run

theorem Atomic.transactional (x : Storage ε σ α) : Atomic (transactional x) s :=
  fun _ _ => eq_of_transactional_error

/-- What is only read before does not matter. -/
theorem Atomic.bind (reads : Keeps id x)
    (rest : ∀ a, exec x s = (.ok a, s) → Atomic (f a) s) : Atomic (x >>= f) s := by
  intro e s' failed
  have same := reads s
  rw [exec_bind] at failed
  rcases run : exec x s with ⟨e | a, s₁⟩
  · rw [run] at failed same
    cases failed
    exact same
  · rw [run] at failed same
    obtain rfl : s₁ = s := same
    exact rest a run e s' failed

/-- Nor does what cannot fail after. -/
theorem Atomic.bind_total (first : Atomic x s)
    (total : ∀ a, Total (f a)) : Atomic (x >>= f) s := by
  intro e s' failed
  rw [exec_bind] at failed
  rcases run : exec x s with ⟨e | a, s₁⟩
  · rw [run] at failed
    cases failed
    exact first _ _ run
  · rw [run] at failed
    obtain ⟨b, s₂, ok⟩ := total a s₁
    cases ok.symm.trans failed

theorem Atomic.map {g : α → β} (first : Atomic x s) : Atomic (g <$> x) s := by
  rw [← bind_pure_comp]
  exact first.bind_total fun a => .pure (g a)

end

end Storage
