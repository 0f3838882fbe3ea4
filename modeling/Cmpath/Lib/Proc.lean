import Mathlib.Logic.Basic

/-!
# Computations that keep what they changed

`Proc σ ε α` is a computation over a state `σ` that may raise an `ε`; unlike a transaction it leaves
the state as it is when it raises. `Leads R p s` is the frame rule at one state: whatever `p` does
from `s`, the state after it is related to `s`.
-/

namespace Lib

/-- A computation over the state `σ` that returns an `α` or raises an `ε`. -/
def Proc (σ ε α : Type) : Type := σ → Except ε α × σ

namespace Proc

variable {σ ε α β : Type}

instance : Monad (Proc σ ε) where
  pure a := fun s => (.ok a, s)
  bind p f := fun s =>
    match p s with
    | (.ok a, s') => f a s'
    | (.error e, s') => (.error e, s')

def raise (e : ε) : Proc σ ε α := fun s => (.error e, s)

/-- Look at the state. -/
def ask (q : σ → Except ε α) : Proc σ ε α := fun s => (q s, s)

def modify (f : σ → σ) : Proc σ ε Unit := fun s => (.ok (), f s)

/-- Raise unless a condition holds of the state. -/
def require (p : σ → Bool) (e : ε) : Proc σ ε Unit :=
  ask fun s => if p s then .ok () else .error e

/-- Raise unless a condition holds. -/
def ensure (p : Bool) (e : ε) : Proc σ ε Unit := require (fun _ => p) e

/-- Raise something else. -/
def mapError (f : ε → ε) (p : Proc σ ε α) : Proc σ ε α := fun s =>
  match p s with
  | (.ok a, s') => (.ok a, s')
  | (.error e, s') => (.error (f e), s')

/-- Drop what is returned. -/
def quietly (p : Proc σ ε α) : Proc σ ε Unit := do
  let _ ← p
  pure ()

/-! ## Taking a run that returns apart -/

theorem bind_ok {p : Proc σ ε α} {f : α → Proc σ ε β} {s s' : σ} {b : β} :
    (p >>= f) s = (.ok b, s') ↔ ∃ a s₁, p s = (.ok a, s₁) ∧ f a s₁ = (.ok b, s') := by
  show (match p s with | (.ok a, s') => f a s' | (.error e, s') => (.error e, s')) = _ ↔ _
  rcases p s with ⟨answer, s₁⟩
  cases answer with
  | error e => simp
  | ok a =>
    constructor
    · exact fun run => ⟨a, s₁, rfl, run⟩
    · rintro ⟨a', s₂, same, run⟩
      obtain ⟨first, second⟩ := Prod.mk.inj same
      rw [Except.ok.inj first, second]
      exact run

theorem pure_ok {a b : α} {s s' : σ} :
    (pure a : Proc σ ε α) s = (.ok b, s') ↔ b = a ∧ s' = s := by
  show (Except.ok a, s) = (Except.ok b, s') ↔ _
  rw [Prod.mk.injEq, Except.ok.injEq]
  exact ⟨fun same => ⟨same.1.symm, same.2.symm⟩, fun same => ⟨same.1.symm, same.2.symm⟩⟩

theorem ask_ok {q : σ → Except ε α} {s s' : σ} {a : α} :
    ask q s = (.ok a, s') ↔ q s = .ok a ∧ s' = s := by
  unfold ask
  rw [Prod.mk.injEq, eq_comm (a := s)]

theorem require_ok {p : σ → Bool} {e : ε} {s s' : σ} {u : Unit} :
    require p e s = (.ok u, s') ↔ p s = true ∧ s' = s := by
  unfold require
  rw [ask_ok]
  cases p s <;> simp

theorem ensure_ok {p : Bool} {e : ε} {s s' : σ} {u : Unit} :
    ensure p e s = (.ok u, s') ↔ p = true ∧ s' = s := require_ok

theorem modify_ok {f : σ → σ} {s s' : σ} {u : Unit} :
    (modify f : Proc σ ε Unit) s = (.ok u, s') ↔ s' = f s := by
  unfold modify
  rw [Prod.mk.injEq, eq_comm (a := f s)]
  exact ⟨fun both => both.2, fun same => ⟨rfl, same⟩⟩

theorem raise_ok {e : ε} {s s' : σ} {a : α} :
    (raise e : Proc σ ε α) s = (.ok a, s') ↔ False := by
  simp [raise]

theorem mapError_ok {f : ε → ε} {p : Proc σ ε α} {s s' : σ} {a : α} :
    mapError f p s = (.ok a, s') ↔ p s = (.ok a, s') := by
  unfold mapError
  rcases p s with ⟨answer, s₁⟩
  cases answer <;> simp

/-! ## What a run leaves -/

/-- The state after the run is related to the one before it. -/
def Leads (R : σ → σ → Prop) (p : Proc σ ε α) (s : σ) : Prop := R s (p s).2

section Leads

variable {R : σ → σ → Prop} {p : Proc σ ε α} {f : α → Proc σ ε β} {s : σ}

/-- One computation after another. -/
theorem Leads.bind (trans : ∀ a b c, R a b → R b c → R a c) (first : Leads R p s)
    (rest : ∀ a s₁, p s = (.ok a, s₁) → Leads R (f a) s₁) : Leads R (p >>= f) s := by
  unfold Leads at *
  show R s (match p s with | (.ok a, s') => f a s' | (.error e, s') => (.error e, s')).2
  rcases run : p s with ⟨answer, s₁⟩
  rw [run] at first
  cases answer with
  | error e => exact first
  | ok a => exact trans _ _ _ first (rest a s₁ run)

variable (refl : ∀ s, R s s)
include refl

theorem Leads.pure (a : α) : Leads R (Pure.pure a : Proc σ ε α) s := refl s

theorem Leads.raise (e : ε) : Leads R (Proc.raise e : Proc σ ε α) s := refl s

theorem Leads.ask (q : σ → Except ε α) : Leads R (Proc.ask q) s := refl s

theorem Leads.ensure (c : Bool) (e : ε) : Leads R (Proc.ensure c e) s := refl s

theorem Leads.require (c : σ → Bool) (e : ε) : Leads R (Proc.require c e) s := refl s

/-- What follows a computation that leaves the state alone starts at the same state. -/
theorem Leads.looking (same : (p s).2 = s) (rest : ∀ a, p s = (.ok a, s) → Leads R (f a) s) :
    Leads R (p >>= f) s := by
  unfold Leads at *
  show R s (match p s with | (.ok a, s') => f a s' | (.error e, s') => (.error e, s')).2
  rcases run : p s with ⟨answer, s₁⟩
  rw [run] at same
  obtain rfl : s₁ = s := same
  cases answer with
  | error e => exact refl _
  | ok a => exact rest a run

/-- What follows a look at the state starts at the same state. -/
theorem Leads.asking {q : σ → Except ε α} (rest : ∀ a, q s = .ok a → Leads R (f a) s) :
    Leads R (Proc.ask q >>= f) s :=
  Leads.looking refl rfl fun a found => rest a (ask_ok.mp found).1

/-- What follows a condition starts at the same state, where it holds. -/
theorem Leads.requiring {c : σ → Bool} {e : ε} {g : Unit → Proc σ ε β}
    (rest : c s = true → Leads R (g ()) s) : Leads R (Proc.require c e >>= g) s := by
  refine Leads.asking refl fun u found => ?_
  by_cases holds : c s = true
  · exact rest holds
  · rw [if_neg holds] at found
    cases found

theorem Leads.ensuring {c : Bool} {e : ε} {g : Unit → Proc σ ε β}
    (rest : c = true → Leads R (g ()) s) : Leads R (Proc.ensure c e >>= g) s :=
  Leads.requiring refl rest

omit refl

theorem Leads.modify {g : σ → σ} (step : R s (g s)) : Leads R (Proc.modify g : Proc σ ε Unit) s :=
  step

theorem Leads.mapError {g : ε → ε} (h : Leads R p s) : Leads R (Proc.mapError g p) s := by
  unfold Leads Proc.mapError at *
  rcases run : p s with ⟨answer, s₁⟩
  rw [run] at h
  cases answer with
  | error e => exact h
  | ok a => exact h

theorem Leads.quietly (h : Leads R p s) : Leads R (Proc.quietly p) s := by
  unfold Leads Proc.quietly at *
  show R s (match p s with
    | (.ok a, s') => (Pure.pure () : Proc σ ε Unit) s' | (.error e, s') => (.error e, s')).2
  rcases run : p s with ⟨answer, s₁⟩
  rw [run] at h
  cases answer with
  | error e => exact h
  | ok a => exact h

end Leads

end Proc

end Lib
