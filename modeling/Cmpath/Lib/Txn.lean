import Mathlib.Logic.Basic

/-!
# Transactions over a store

`Txn σ ε α` is a computation over a store `σ` that may fail with an `ε`; `atomic` runs it as one
transaction: its writes are kept when it succeeds and undone when it fails.

A successful run is taken apart step by step by the `_ok` lemmas (`bind_ok` and one for each
primitive). `Keeps R` is the frame rule: a computation keeps a reflexive and transitive relation
between the stores before and after it when each of its steps does.
-/

namespace Lib

/-- A computation over the store `σ` that returns an `α` or fails with an `ε`. -/
def Txn (σ ε α : Type) : Type := σ → Except ε (α × σ)

namespace Txn

variable {σ ε α β : Type}

instance : Monad (Txn σ ε) where
  pure a := fun s => .ok (a, s)
  bind t f := fun s =>
    match t s with
    | .ok (a, s') => f a s'
    | .error e => .error e

/-- Fail with an error. -/
def fail (e : ε) : Txn σ ε α := fun _ => .error e

/-- Run a query; the store stays. -/
def read (q : σ → Except ε α) : Txn σ ε α := fun s =>
  match q s with
  | .ok a => .ok (a, s)
  | .error e => .error e

/-- Change the store. -/
def modify (f : σ → σ) : Txn σ ε Unit := fun s => .ok ((), f s)

/-- Fail unless a condition holds of the store. -/
def require (p : σ → Bool) (e : ε) : Txn σ ε Unit := fun s =>
  if p s then .ok ((), s) else .error e

/-- Fail unless a condition holds. -/
def ensure (p : Bool) (e : ε) : Txn σ ε Unit := fun s => if p then .ok ((), s) else .error e

/-- Do something for each element in turn. -/
def each (xs : List α) (f : α → Txn σ ε Unit) : Txn σ ε Unit :=
  match xs with
  | [] => pure ()
  | x :: rest => do f x; each rest f

/-- Run as one transaction: commit on success, roll back on failure. -/
def atomic (t : Txn σ ε α) (s : σ) : Except ε α × σ :=
  match t s with
  | .ok (a, s') => (.ok a, s')
  | .error e => (.error e, s)

/-! ## Taking a successful run apart -/

theorem bind_ok {t : Txn σ ε α} {f : α → Txn σ ε β} {s s' : σ} {b : β} :
    (t >>= f) s = .ok (b, s') ↔ ∃ a s₁, t s = .ok (a, s₁) ∧ f a s₁ = .ok (b, s') := by
  show (match t s with | .ok (a, s') => f a s' | .error e => .error e) = _ ↔ _
  cases h : t s with
  | error e => simp
  | ok r =>
    obtain ⟨a, s₁⟩ := r
    simp only [Except.ok.injEq, Prod.mk.injEq]
    exact ⟨fun run => ⟨a, s₁, ⟨rfl, rfl⟩, run⟩, fun ⟨_, _, ⟨rfl, rfl⟩, run⟩ => run⟩

theorem pure_ok {a b : α} {s s' : σ} :
    (pure a : Txn σ ε α) s = .ok (b, s') ↔ b = a ∧ s' = s := by
  show (Except.ok (a, s) : Except ε (α × σ)) = _ ↔ _
  simp only [Except.ok.injEq, Prod.mk.injEq]
  exact ⟨fun ⟨h, same⟩ => ⟨h.symm, same.symm⟩, fun ⟨h, same⟩ => ⟨h.symm, same.symm⟩⟩

theorem fail_ok {e : ε} {s s' : σ} {a : α} : (fail e : Txn σ ε α) s = .ok (a, s') ↔ False := by
  simp [fail]

theorem read_ok {q : σ → Except ε α} {s s' : σ} {a : α} :
    read q s = .ok (a, s') ↔ q s = .ok a ∧ s' = s := by
  unfold read
  cases q s with
  | error e => simp
  | ok b =>
    simp only [Except.ok.injEq, Prod.mk.injEq]
    exact ⟨fun ⟨h, same⟩ => ⟨h, same.symm⟩, fun ⟨h, same⟩ => ⟨h, same.symm⟩⟩

theorem modify_ok {f : σ → σ} {s s' : σ} {u : Unit} :
    (modify f : Txn σ ε Unit) s = .ok (u, s') ↔ s' = f s := by
  constructor
  · intro h
    exact (Prod.mk.inj (Except.ok.inj h)).2.symm
  · rintro rfl
    rfl

theorem require_ok {p : σ → Bool} {e : ε} {s s' : σ} {u : Unit} :
    require p e s = .ok (u, s') ↔ p s = true ∧ s' = s := by
  unfold require
  cases p s with
  | false => simp
  | true =>
    simp only [if_true, Except.ok.injEq, Prod.mk.injEq, true_and]
    exact ⟨Eq.symm, Eq.symm⟩

theorem ensure_ok {p : Bool} {e : ε} {s s' : σ} {u : Unit} :
    ensure p e s = .ok (u, s') ↔ p = true ∧ s' = s := by
  unfold ensure
  cases p with
  | false => simp
  | true =>
    simp only [if_true, Except.ok.injEq, Prod.mk.injEq, true_and]
    exact ⟨Eq.symm, Eq.symm⟩

theorem each_nil_ok {f : α → Txn σ ε Unit} {s s' : σ} {u : Unit} :
    each [] f s = .ok (u, s') ↔ s' = s := by
  show (pure () : Txn σ ε Unit) s = _ ↔ _
  rw [pure_ok]
  exact ⟨And.right, fun h => ⟨rfl, h⟩⟩

theorem each_cons_ok {x : α} {xs : List α} {f : α → Txn σ ε Unit} {s s' : σ} {u : Unit} :
    each (x :: xs) f s = .ok (u, s') ↔
      ∃ s₁, f x s = .ok ((), s₁) ∧ each xs f s₁ = .ok (u, s') := by
  show (f x >>= fun _ => each xs f) s = _ ↔ _
  rw [bind_ok]
  constructor
  · rintro ⟨⟨⟩, s₁, first, rest⟩
    exact ⟨s₁, first, rest⟩
  · rintro ⟨s₁, first, rest⟩
    exact ⟨(), s₁, first, rest⟩

/-! ## Running forward -/

theorem bind_of_ok {t : Txn σ ε α} {f : α → Txn σ ε β} {s s₁ : σ} {a : α}
    (h : t s = .ok (a, s₁)) : (t >>= f) s = f a s₁ := by
  show (match t s with | .ok (a, s') => f a s' | .error e => .error e) = _
  rw [h]

theorem bind_of_error {t : Txn σ ε α} {f : α → Txn σ ε β} {s : σ} {e : ε}
    (h : t s = .error e) : (t >>= f) s = .error e := by
  show (match t s with
    | .ok (a, s') => f a s'
    | .error e => .error e) = _
  rw [h]

theorem require_of {p : σ → Bool} {e : ε} {s : σ} (h : p s = true) :
    require p e s = .ok ((), s) :=
  require_ok.mpr ⟨h, rfl⟩

/-- Checks of each element leave the store and hold of every element. -/
theorem each_check_ok {P : α → σ → Prop} {f : α → Txn σ ε Unit}
    (check : ∀ {a s s'} {u : Unit}, f a s = .ok (u, s') → s' = s ∧ P a s) {xs : List α} {s s' : σ}
    {u : Unit} (h : each xs f s = .ok (u, s')) : s' = s ∧ ∀ a ∈ xs, P a s := by
  induction xs generalizing s with
  | nil => exact ⟨each_nil_ok.mp h, fun _ none_ => absurd none_ List.not_mem_nil⟩
  | cons x xs ih =>
    obtain ⟨s₁, first, rest⟩ := each_cons_ok.mp h
    obtain ⟨rfl, here⟩ := check first
    obtain ⟨rfl, later⟩ := ih rest
    refine ⟨rfl, fun a member => ?_⟩
    rcases List.mem_cons.mp member with rfl | member
    · exact here
    · exact later a member

theorem each_of_ok {x : α} {xs : List α} {f : α → Txn σ ε Unit} {s s₁ : σ}
    (h : f x s = .ok ((), s₁)) : each (x :: xs) f s = each xs f s₁ :=
  bind_of_ok h

/-! ## Transactions -/

theorem atomic_ok {t : Txn σ ε α} {s s' : σ} {a : α} :
    atomic t s = (.ok a, s') ↔ t s = .ok (a, s') := by
  unfold atomic
  cases t s with
  | error e => simp
  | ok r => simp [Prod.ext_iff]

/-- A transaction that fails leaves the store as it was. -/
theorem atomic_of_error {t : Txn σ ε α} {s : σ} {e : ε} (h : t s = .error e) :
    atomic t s = (.error e, s) := by
  unfold atomic
  rw [h]

theorem atomic_error {t : Txn σ ε α} {s s' : σ} {e : ε} (h : atomic t s = (.error e, s')) :
    s' = s := by
  unfold atomic at h
  cases run : t s with
  | error e' => rw [run] at h; exact (Prod.ext_iff.mp h).2.symm
  | ok r => rw [run] at h; exact absurd (Prod.ext_iff.mp h).1 (by simp)

/-- What holds of the store and of the store after every successful run holds after `atomic`. -/
theorem atomic_cases {t : Txn σ ε α} {s : σ} {P : σ → Prop} (stay : P s)
    (run : ∀ a s', t s = .ok (a, s') → P s') : P (atomic t s).2 := by
  unfold atomic
  cases h : t s with
  | error e => exact stay
  | ok r => exact run r.1 r.2 h

/-! ## Frames -/

/-- Every successful run relates the store before to the store after. -/
def Keeps (R : σ → σ → Prop) (t : Txn σ ε α) : Prop := ∀ s a s', t s = .ok (a, s') → R s s'

section Keeps

variable {R : σ → σ → Prop}

theorem Keeps.bind (trans : ∀ a b c, R a b → R b c → R a c) {t : Txn σ ε α}
    {f : α → Txn σ ε β} (ht : Keeps R t) (hf : ∀ a, Keeps R (f a)) : Keeps R (t >>= f) := by
  intro s b s' h
  obtain ⟨a, s₁, first, rest⟩ := bind_ok.mp h
  exact trans _ _ _ (ht s a s₁ first) (hf a s₁ b s' rest)

theorem Keeps.of_same (refl : ∀ s, R s s) {t : Txn σ ε α}
    (same : ∀ s a s', t s = .ok (a, s') → s' = s) : Keeps R t := by
  intro s a s' h
  rw [same s a s' h]
  exact refl s

theorem Keeps.mono {other : σ → σ → Prop} (more : ∀ a b, R a b → other a b) {t : Txn σ ε α}
    (h : Keeps R t) : Keeps other t :=
  fun s a s' run => more s s' (h s a s' run)

theorem Keeps.pure (refl : ∀ s, R s s) (a : α) : Keeps R (Pure.pure a : Txn σ ε α) :=
  .of_same refl fun _ _ _ h => (pure_ok.mp h).2

theorem Keeps.fail (e : ε) : Keeps R (Txn.fail e : Txn σ ε α) :=
  fun _ _ _ h => (fail_ok.mp h).elim

theorem Keeps.read (refl : ∀ s, R s s) (q : σ → Except ε α) : Keeps R (Txn.read q) :=
  .of_same refl fun _ _ _ h => (read_ok.mp h).2

theorem Keeps.require (refl : ∀ s, R s s) (p : σ → Bool) (e : ε) :
    Keeps R (Txn.require p e) :=
  .of_same refl fun _ _ _ h => (require_ok.mp h).2

theorem Keeps.ensure (refl : ∀ s, R s s) (p : Bool) (e : ε) : Keeps R (Txn.ensure p e) :=
  .of_same refl fun _ _ _ h => (ensure_ok.mp h).2

theorem Keeps.modify {f : σ → σ} (step : ∀ s, R s (f s)) :
    Keeps R (Txn.modify f : Txn σ ε Unit) := by
  intro s a s' h
  rw [modify_ok.mp h]
  exact step s

theorem Keeps.each_mem (refl : ∀ s, R s s) (trans : ∀ a b c, R a b → R b c → R a c)
    {f : α → Txn σ ε Unit} {xs : List α} (hf : ∀ a ∈ xs, Keeps R (f a)) :
    Keeps R (Txn.each xs f) := by
  induction xs with
  | nil => exact .pure refl ()
  | cons x xs ih =>
    exact .bind trans (hf x List.mem_cons_self) fun _ =>
      ih fun a member => hf a (List.mem_cons_of_mem _ member)

theorem Keeps.each (refl : ∀ s, R s s) (trans : ∀ a b c, R a b → R b c → R a c)
    {f : α → Txn σ ε Unit} (hf : ∀ a, Keeps R (f a)) (xs : List α) : Keeps R (Txn.each xs f) :=
  .each_mem refl trans fun a _ => hf a

/-- A transaction keeps what its body keeps, whether it commits or rolls back. -/
theorem Keeps.atomic (refl : ∀ s, R s s) {t : Txn σ ε α} (ht : Keeps R t) (s : σ) :
    R s (Txn.atomic t s).2 :=
  atomic_cases (P := R s) (refl s) fun a s' h => ht s a s' h

end Keeps

/-! ## Errors -/

/-- Every failing run fails with an error of a kind. -/
def Raises (P : ε → Prop) (t : Txn σ ε α) : Prop := ∀ s e, t s = .error e → P e

section Raises

variable {P : ε → Prop}

theorem Raises.bind {t : Txn σ ε α} {f : α → Txn σ ε β} (ht : Raises P t)
    (hf : ∀ a, Raises P (f a)) : Raises P (t >>= f) := by
  intro s e h
  cases run : t s with
  | error e' =>
    rw [bind_of_error run] at h
    cases h
    exact ht s e run
  | ok r =>
    rw [bind_of_ok run] at h
    exact hf r.1 r.2 e h

theorem Raises.pure (a : α) : Raises P (Pure.pure a : Txn σ ε α) := by
  intro s e h
  cases h

theorem Raises.fail {e : ε} (h : P e) : Raises P (Txn.fail e : Txn σ ε α) := by
  intro s e' run
  cases run
  exact h

theorem Raises.read {q : σ → Except ε α} (h : ∀ s e, q s = .error e → P e) :
    Raises P (Txn.read q) := by
  intro s e run
  unfold Txn.read at run
  cases answer : q s with
  | error e' =>
    rw [answer] at run
    cases run
    exact h s e answer
  | ok a =>
    rw [answer] at run
    cases run

theorem Raises.require {p : σ → Bool} {e : ε} (h : P e) : Raises P (Txn.require p e) := by
  intro s e' run
  unfold Txn.require at run
  split at run
  · cases run
  · cases run
    exact h

/-- A condition that fails is the one that was asked for. -/
theorem Raises.ensure {p : Bool} {e : ε} (h : p = false → P e) :
    Raises P (Txn.ensure p e : Txn σ ε Unit) := by
  intro s e' run
  unfold Txn.ensure at run
  cases p with
  | true => cases run
  | false =>
    cases run
    exact h rfl

theorem Raises.modify (f : σ → σ) : Raises P (Txn.modify f : Txn σ ε Unit) := by
  intro s e h
  cases h

theorem Raises.each {f : α → Txn σ ε Unit} (hf : ∀ a, Raises P (f a)) (xs : List α) :
    Raises P (Txn.each xs f) := by
  induction xs with
  | nil => exact .pure ()
  | cons a rest ih => exact .bind (hf a) fun _ => ih

end Raises

end Txn

/-- A query that goes on after another one: both succeeded. -/
theorem except_bind_ok {ε α β : Type} {x : Except ε α} {f : α → Except ε β} {b : β} :
    (x >>= f) = .ok b ↔ ∃ a, x = .ok a ∧ f a = .ok b := by
  cases x with
  | error e => simp [bind, Except.bind]
  | ok a => simp [bind, Except.bind]

/-- It failed: one of the two did. -/
theorem except_bind_error {ε α β : Type} {x : Except ε α} {f : α → Except ε β} {e : ε} :
    (x >>= f) = .error e ↔ x = .error e ∨ ∃ a, x = .ok a ∧ f a = .error e := by
  cases x with
  | error e => simp [bind, Except.bind]
  | ok a => simp [bind, Except.bind]

end Lib
