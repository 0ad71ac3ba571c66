import Mathlib

/-! Promises of what computations give, whatever their effects are. A promise that the steps of a
computation keep is kept by the whole of it. -/
namespace Qubo

/-- What is promised of the results of computations. -/
structure Promise (m : Type → Type) [Monad m] where
  Gives {β : Type} (p : β → Prop) (x : m β) : Prop
  pure {β : Type} {p : β → Prop} {a : β} (h : p a) : Gives p (Pure.pure a)
  bind {β γ : Type} {p : β → Prop} {q : γ → Prop} {x : m β} {f : β → m γ} (hx : Gives p x)
    (hf : ∀ a, p a → Gives q (f a)) : Gives q (x >>= f)

namespace Promise
variable {m : Type → Type} [Monad m] {ε β γ σ : Type} {p q : β → Prop}

theorem imp [LawfulMonad m] (P : Promise m) {x : m β} (h : P.Gives p x)
    (hpq : ∀ a, p a → q a) : P.Gives q x := by
  rw [← bind_pure x]
  exact P.bind h fun a ha => P.pure (hpq a ha)

/-- The results are among those that satisfy the condition. -/
def satisfies (m : Type → Type) [Monad m] [LawfulMonad m] : Promise m where
  Gives := SatisfiesM
  pure := .pure
  bind := .bind

/-- From every state that an invariant holds of, the result is as promised and the invariant holds
of the state that is left. -/
def keeping (I : σ → Prop) : Promise (StateM σ) where
  Gives p x := ∀ s, I s → p (x s).1 ∧ I (x s).2
  pure h _ hs := ⟨h, hs⟩
  bind hx hf s hs := hf _ (hx s hs).1 _ (hx s hs).2

/-- The condition on a result, or another one on the reason why there is none. -/
def OrStops (stops : ε → Prop) (p : β → Prop) : Except ε β → Prop
  | .ok v => p v
  | .error e => stops e

theorem OrStops.elim {stops : ε → Prop} {r : Except ε β} (h : OrStops stops p r) :
    (∃ e, r = .error e ∧ stops e) ∨ ∃ v, r = .ok v ∧ p v := by
  cases r with
  | error e => exact .inl ⟨e, rfl, h⟩
  | ok v => exact .inr ⟨v, rfl, h⟩

/-- The same promise of computations that may stop before they give anything. -/
def orStops (P : Promise m) (stops : ε → Prop) : Promise (ExceptT ε m) where
  Gives p x := P.Gives (OrStops stops p) x.run
  pure h := P.pure h
  bind hx hf := P.bind hx fun r hr => by
    cases r with
    | error e => exact P.pure hr
    | ok v => exact hf v hr

variable (P : Promise m)

theorem orStops_lift [LawfulMonad m] {stops : ε → Prop} {x : m β} (h : P.Gives p x) :
    (P.orStops stops).Gives p (liftM x : ExceptT ε m β) := by
  show P.Gives (OrStops stops p) (Except.ok <$> x)
  rw [map_eq_pure_bind]
  exact P.bind h fun _ ha => P.pure ha

/-- Where a first step succeeds, the next decides. -/
theorem run_bind {first : ExceptT ε m β} {next : β → ExceptT ε m γ} {v : β}
    {r : Except ε γ → Prop} (hfirst : P.Gives (· = .ok v) first.run)
    (hnext : P.Gives r (next v).run) : P.Gives r (first >>= next).run := by
  refine P.bind hfirst ?_
  rintro _ rfl
  exact hnext

/-- From every state of which the one condition holds, what is given and the state that is left
satisfy the other. -/
def Ensures (I : σ → Prop) (x : StateM σ β) (p : β → σ → Prop) : Prop :=
  ∀ s, I s → p (x s).1 (x s).2

/-- The same of a computation that may stop, and then does not. -/
def EnsuresOk (I : σ → Prop) (x : ExceptT ε (StateM σ) β) (p : β → σ → Prop) : Prop :=
  Ensures I x.run fun r s => ∃ v, r = .ok v ∧ p v s

section Ensures
variable {I J : σ → Prop} {p : β → σ → Prop}

theorem Ensures.of_imp {x : StateM σ β} (h : Ensures I x p) (hJ : ∀ s, J s → I s) :
    Ensures J x p :=
  fun s hs => h s (hJ s hs)

theorem Ensures.bind {x : StateM σ β} {f : β → StateM σ γ} {q : γ → σ → Prop}
    (hx : Ensures I x p) (hf : ∀ a, Ensures (p a) (f a) q) : Ensures I (x >>= f) q :=
  fun s hs => hf _ _ (hx s hs)

theorem Ensures.lift {x : StateM σ β} (h : Ensures I x p) :
    EnsuresOk I (liftM x : ExceptT ε (StateM σ) β) p :=
  fun s hs => ⟨_, rfl, h s hs⟩

theorem EnsuresOk.pure {v : β} (h : ∀ s, I s → p v s) :
    EnsuresOk I (Pure.pure v : ExceptT ε (StateM σ) β) p :=
  fun s hs => ⟨v, rfl, h s hs⟩

variable {x : ExceptT ε (StateM σ) β}

theorem EnsuresOk.bind {f : β → ExceptT ε (StateM σ) γ} {q : γ → σ → Prop}
    (hx : EnsuresOk I x p) (hf : ∀ v, EnsuresOk (p v) (f v) q) : EnsuresOk I (x >>= f) q := by
  refine Ensures.bind (f := ExceptT.bindCont f) hx ?_
  rintro _ s ⟨v, rfl, hs⟩
  exact hf v s hs

theorem EnsuresOk.of_and {a : Prop} (h : a → EnsuresOk J x p) :
    EnsuresOk (fun s => a ∧ J s) x p :=
  fun s hs => h hs.1 s hs.2

theorem EnsuresOk.discard (h : EnsuresOk I x p) :
    EnsuresOk I (Functor.discard x) fun _ s => ∃ v, p v s := by
  have hdiscard : Functor.discard x = x >>= fun _ => Pure.pure () := by
    rw [Functor.discard, map_const, Function.comp_apply, map_eq_pure_bind]
  rw [hdiscard]
  exact h.bind fun v => .pure fun s hs => ⟨v, hs⟩

end Ensures

end Promise

end Qubo
