import Mathlib.Data.List.Forall2
import PageTemplate.Proofs.Ensures

/-! # Two runs side by side

A relation between two runs says how their results are related, together with the states that the
runs leave, and how the states are related when both fail. Runs that are built alike are followed
side by side, step by step and through loops over related lists.
-/

namespace PageTemplate

variable {ε σ α α' β β' ι ι' : Type}

/-- Both runs give a result, or both fail. Results are related, and so are failures, each together
with the states that are left. -/
inductive EndAlike (R : α → σ → α' → σ → Prop) (E : ε → σ → ε → σ → Prop) :
    Except ε α × σ → Except ε α' × σ → Prop
  | ok {a : α} {a' : α'} {s s' : σ} (h : R a s a' s') : EndAlike R E (.ok a, s) (.ok a', s')
  | error {e e' : ε} {s s' : σ} (h : E e s e' s') : EndAlike R E (.error e, s) (.error e', s')

/-- Failures of the same kind that leave related states. -/
def SameError (I : σ → σ → Prop) (e : ε) (s : σ) (e' : ε) (s' : σ) : Prop := e' = e ∧ I s s'

namespace EndAlike

variable {R R' : α → σ → α' → σ → Prop} {S : β → σ → β' → σ → Prop} {E E' : ε → σ → ε → σ → Prop}
  {m : ExceptT ε (StateM σ) α} {m' : ExceptT ε (StateM σ) α'} {s s' : σ}

theorem mono {p : Except ε α × σ} {p' : Except ε α' × σ} (h : EndAlike R E p p')
    (hok : ∀ a t a' t', R a t a' t' → R' a t a' t')
    (herror : ∀ e t e' t', E e t e' t' → E' e t e' t') :
    EndAlike R' E' p p' := by
  cases h with
  | ok h => exact .ok (hok _ _ _ _ h)
  | error h => exact .error (herror _ _ _ _ h)

theorem ok_of_eq {p : Except ε α × σ} {p' : Except ε α' × σ} {a : α} {a' : α'}
    (h : EndAlike R E p p') (hp : p = (.ok a, s)) (hp' : p' = (.ok a', s')) : R a s a' s' := by
  subst hp hp'
  cases h with
  | ok h => exact h

protected theorem bind {f : α → ExceptT ε (StateM σ) β} {f' : α' → ExceptT ε (StateM σ) β'}
    (hm : EndAlike R E (outcome m s) (outcome m' s'))
    (hf : ∀ a t a' t', R a t a' t' → EndAlike S E (outcome (f a) t) (outcome (f' a') t')) :
    EndAlike S E (outcome (m >>= f) s) (outcome (m' >>= f') s') := by
  rw [outcome_bind, outcome_bind]
  generalize outcome m s = p, outcome m' s' = p' at hm
  cases hm with
  | ok h => exact hf _ _ _ _ h
  | error h => exact .error h

protected theorem map {f : α → β} {f' : α' → β'} (hm : EndAlike R E (outcome m s) (outcome m' s'))
    (hf : ∀ a t a' t', R a t a' t' → S (f a) t (f' a') t') :
    EndAlike S E (outcome (f <$> m) s) (outcome (f' <$> m') s') := by
  rw [outcome_map, outcome_map]
  generalize outcome m s = p, outcome m' s' = p' at hm
  cases hm with
  | ok h => exact .ok (hf _ _ _ _ h)
  | error h => exact .error h

/-- What each of the runs ensures on its own, however they end. -/
theorem ensured {ok : α → σ → Prop} {ok' : α' → σ → Prop} {bad bad' : ε → σ → Prop}
    (h : EndAlike R E (outcome m s) (outcome m' s')) (hleft : Ensures m s ok bad)
    (hright : Ensures m' s' ok' bad') :
    EndAlike (fun a t a' t' => R a t a' t' ∧ ok a t ∧ ok' a' t')
      (fun e t e' t' => E e t e' t' ∧ bad e t ∧ bad' e' t') (outcome m s) (outcome m' s') := by
  rcases hout : outcome m s with ⟨e | a, t⟩ <;> rcases hout' : outcome m' s' with ⟨e' | a', t'⟩ <;>
    rw [hout, hout'] at h <;> cases h
  case error hE => exact .error ⟨hE, hleft.bad_of_outcome hout, hright.bad_of_outcome hout'⟩
  case ok hR => exact .ok ⟨hR, hleft.ok_of_outcome hout, hright.ok_of_outcome hout'⟩

/-- What each of the runs ensures on its own when it gives a result. -/
theorem and {ok : α → σ → Prop} {ok' : α' → σ → Prop} {bad bad' : ε → σ → Prop}
    (h : EndAlike R E (outcome m s) (outcome m' s')) (hleft : Ensures m s ok bad)
    (hright : Ensures m' s' ok' bad') :
    EndAlike (fun a t a' t' => R a t a' t' ∧ ok a t ∧ ok' a' t') E (outcome m s)
      (outcome m' s') :=
  (h.ensured hleft hright).mono (fun _ _ _ _ => id) fun _ _ _ _ => And.left

/-! ## Loops over related lists -/

section Loops

variable {P : ι → ι' → Prop} {items : List ι} {items' : List ι'} {I : σ → σ → Prop}

protected theorem forM {f : ι → ExceptT ε (StateM σ) Unit} {f' : ι' → ExceptT ε (StateM σ) Unit}
    (hitems : List.Forall₂ P items items') (h : I s s')
    (hstep : ∀ i i' t t', P i i' → I t t' →
      EndAlike (fun _ u _ u' => I u u') E (outcome (f i) t) (outcome (f' i') t')) :
    EndAlike (fun _ u _ u' => I u u') E (outcome (items.forM f) s) (outcome (items'.forM f') s') := by
  induction hitems generalizing s s' with
  | nil => exact .ok h
  | cons hhead _ ih => exact (hstep _ _ _ _ hhead h).bind fun _ _ _ _ hI => ih hI

protected theorem mapM {f : ι → ExceptT ε (StateM σ) α} {f' : ι' → ExceptT ε (StateM σ) α'}
    {Q : α → α' → Prop} (hitems : List.Forall₂ P items items') (h : I s s')
    (hstep : ∀ i i' t t', P i i' → I t t' →
      EndAlike (fun a u a' u' => Q a a' ∧ I u u') E (outcome (f i) t) (outcome (f' i') t')) :
    EndAlike (fun as u as' u' => List.Forall₂ Q as as' ∧ I u u') E (outcome (items.mapM f) s)
      (outcome (items'.mapM f') s') := by
  induction hitems generalizing s s' with
  | nil => exact .ok ⟨.nil, h⟩
  | cons hhead _ ih =>
      rw [List.mapM_cons, List.mapM_cons]
      refine (hstep _ _ _ _ hhead h).bind fun a t a' t' ⟨hQ, hI⟩ => ?_
      exact (ih hI).bind fun as u as' u' ⟨hQs, hI'⟩ => .ok ⟨.cons hQ hQs, hI'⟩

/-- What relates the results so far may speak of the states too. -/
protected theorem foldlM {f : α → ι → ExceptT ε (StateM σ) α}
    {f' : α' → ι' → ExceptT ε (StateM σ) α'} {a : α} {a' : α'}
    (hitems : List.Forall₂ P items items') (h : R a s a' s')
    (hstep : ∀ i i' b t b' t', P i i' → R b t b' t' →
      EndAlike R E (outcome (f b i) t) (outcome (f' b' i') t')) :
    EndAlike R E (outcome (items.foldlM f a) s) (outcome (items'.foldlM f' a') s') := by
  induction hitems generalizing s s' a a' with
  | nil => exact .ok h
  | cons hhead _ ih =>
      rw [List.foldlM_cons, List.foldlM_cons]
      exact (hstep _ _ _ _ _ _ hhead h).bind fun _ _ _ _ => ih

end Loops

end EndAlike

end PageTemplate
