import Mathlib.Data.List.Basic
import Mathlib.Data.List.Forall2

/-! # What holds after a step that may fail

Renderings and edits of a document are steps over a state that either give a result or fail, and
that leave a state behind in both cases. A specification of such a step says what holds of a
result and what holds of a failure, each together with the state that was left.
-/

namespace PageTemplate

variable {ε σ α β γ : Type}

/-- The result of a step and the state it leaves. -/
def outcome (m : ExceptT ε (StateM σ) α) (s : σ) : Except ε α × σ := (m.run.run s).run

theorem eq_ok_of_toOption {result : Except ε α} {a : α} (h : result.toOption = some a) :
    result = .ok a := by
  cases result with
  | error e => cases h
  | ok b => exact congrArg _ (Option.some.inj h)

theorem exists_error_of_toOption {result : Except ε α} (h : result.toOption.isNone = true) :
    ∃ fault, result = .error fault := by
  cases result with
  | error fault => exact ⟨fault, rfl⟩
  | ok a => cases h

theorem toOption_mapError {δ : Type} (result : Except ε α) (f : ε → δ) :
    (result.mapError f).toOption = result.toOption := by
  cases result <;> rfl

theorem exists_ok_of_bind {result : Except ε α} {next : α → Except ε β} {b : β}
    (h : result >>= next = .ok b) : ∃ a, result = .ok a ∧ next a = .ok b := by
  cases result with
  | error fault => cases h
  | ok a => exact ⟨a, rfl, h⟩

theorem exists_ok_of_map {result : Except ε α} {f : α → β} {b : β}
    (h : result.map f = .ok b) : ∃ a, result = .ok a ∧ f a = b := by
  cases result with
  | error fault => cases h
  | ok a => exact ⟨a, rfl, Except.ok.inj h⟩

theorem error_of_map {result : Except ε α} {f : α → β} {fault : ε}
    (h : result.map f = .error fault) : result = .error fault := by
  cases result with
  | error fault' =>
      cases h
      rfl
  | ok a => cases h

theorem bind_congr_ok {result : Except ε α} {next next' : α → Except ε β}
    (h : ∀ a, result = .ok a → next a = next' a) : result >>= next = result >>= next' := by
  cases result with
  | error fault => rfl
  | ok a => exact h a rfl

theorem forall₂_imp_of_mem {R S : α → β → Prop} {l : List α} {l' : List β}
    (hl : List.Forall₂ R l l') (himp : ∀ a ∈ l, ∀ b ∈ l', R a b → S a b) : List.Forall₂ S l l' := by
  induction hl with
  | nil => exact .nil
  | cons hhead htail ih =>
      apply List.Forall₂.cons (himp _ List.mem_cons_self _ List.mem_cons_self hhead)
      exact ih fun a ha b hb => himp a (List.mem_cons_of_mem _ ha) b (List.mem_cons_of_mem _ hb)

theorem exists_of_mem_right {R : α → β → Prop} {l : List α} {l' : List β} {b : β}
    (hl : List.Forall₂ R l l') (hb : b ∈ l') : ∃ a ∈ l, R a b := by
  induction hl with
  | nil => cases hb
  | cons hhead _ ih =>
      rcases List.mem_cons.mp hb with rfl | hb
      · exact ⟨_, List.mem_cons_self, hhead⟩
      · obtain ⟨a, ha, hab⟩ := ih hb
        exact ⟨a, List.mem_cons_of_mem _ ha, hab⟩

theorem exists_forall₂_of_mem {R : α → β → Prop} {l : List α} (h : ∀ a ∈ l, ∃ b, R a b) :
    ∃ l', List.Forall₂ R l l' := by
  induction l with
  | nil => exact ⟨[], .nil⟩
  | cons a l ih =>
      obtain ⟨b, hhead⟩ := h a List.mem_cons_self
      obtain ⟨l', htail⟩ := ih fun a ha => h a (List.mem_cons_of_mem _ ha)
      exact ⟨b :: l', .cons hhead htail⟩

/-- A step for each item succeeds when it does for each, and gives the results in order. -/
theorem mapM_eq_ok_iff {f : α → Except ε β} {items : List α} {results : List β} :
    items.mapM f = .ok results ↔ List.Forall₂ (fun a b => f a = .ok b) items results := by
  induction items generalizing results with
  | nil =>
      rw [List.mapM_nil, List.forall₂_nil_left_iff]
      exact ⟨fun h => (Except.ok.inj h).symm, fun h => h ▸ rfl⟩
  | cons a items ih =>
      rw [List.mapM_cons, List.forall₂_cons_left_iff]
      constructor
      · intro h
        obtain ⟨b, hfirst, h⟩ := exists_ok_of_bind h
        obtain ⟨bs, hrest, h⟩ := exists_ok_of_bind h
        exact ⟨b, bs, hfirst, ih.mp hrest, (Except.ok.inj h).symm⟩
      · rintro ⟨b, bs, hfirst, hrest, rfl⟩
        rw [hfirst, ih.mpr hrest]
        rfl

theorem exists_mapM_ok {f : α → Except ε β} {items : List α} (h : ∀ a ∈ items, ∃ b, f a = .ok b) :
    ∃ results, items.mapM f = .ok results := by
  simpa only [mapM_eq_ok_iff] using exists_forall₂_of_mem h

theorem map_eq_of_mapM_ok {f : α → Except ε β} {g : β → γ} {h : α → γ}
    (hf : ∀ a b, f a = .ok b → g b = h a) {items : List α} {results : List β}
    (hresults : items.mapM f = .ok results) : results.map g = items.map h := by
  rw [mapM_eq_ok_iff] at hresults
  induction hresults with
  | nil => rfl
  | cons hfirst _ ih => rw [List.map_cons, List.map_cons, hf _ _ hfirst, ih]

/-- From state `s` the step gives a result with `ok`, or fails with `bad`. -/
def Ensures (m : ExceptT ε (StateM σ) α) (s : σ) (ok : α → σ → Prop) (bad : ε → σ → Prop) : Prop :=
  match outcome m s with
  | (.ok a, t) => ok a t
  | (.error e, t) => bad e t

/-! ## Results of composed steps -/

section Outcome

variable (s : σ)

@[simp] theorem outcome_pure (a : α) : outcome (pure a : ExceptT ε (StateM σ) α) s = (.ok a, s) :=
  rfl

@[simp] theorem outcome_throw (e : ε) :
    outcome (throw e : ExceptT ε (StateM σ) α) s = (.error e, s) := rfl

@[simp] theorem outcome_get : outcome (get : ExceptT ε (StateM σ) σ) s = (.ok s, s) := rfl

@[simp] theorem outcome_set (t : σ) :
    outcome (set t : ExceptT ε (StateM σ) PUnit) s = (.ok ⟨⟩, t) := rfl

@[simp] theorem outcome_modify (f : σ → σ) :
    outcome (modify f : ExceptT ε (StateM σ) PUnit) s = (.ok ⟨⟩, f s) := rfl

@[simp] theorem outcome_modifyGet (f : σ → α × σ) :
    outcome (modifyGet f : ExceptT ε (StateM σ) α) s = (.ok (f s).1, (f s).2) := rfl

theorem outcome_bind (m : ExceptT ε (StateM σ) α) (f : α → ExceptT ε (StateM σ) β) :
    outcome (m >>= f) s = match outcome m s with
      | (.ok a, t) => outcome (f a) t
      | (.error e, t) => (.error e, t) := by
  unfold outcome ExceptT.run StateT.run Id.run
  simp only [bind, ExceptT.bind, ExceptT.mk, StateT.bind, ExceptT.bindCont]
  cases m s with
  | mk result t => cases result <;> rfl

theorem outcome_bind_ok {m : ExceptT ε (StateM σ) α} {f : α → ExceptT ε (StateM σ) β} {s t : σ}
    {a : α} (hm : outcome m s = (.ok a, t)) : outcome (m >>= f) s = outcome (f a) t := by
  rw [outcome_bind, hm]

theorem outcome_map (f : α → β) (m : ExceptT ε (StateM σ) α) :
    outcome (f <$> m) s = match outcome m s with
      | (.ok a, t) => (.ok (f a), t)
      | (.error e, t) => (.error e, t) := by
  rw [map_eq_pure_bind, outcome_bind]
  rfl

/-- A loop does the first thing and goes on with the others. -/
theorem outcome_forM_cons {ι : Type} (f : ι → ExceptT ε (StateM σ) PUnit) (i : ι) (items : List ι) :
    outcome ((i :: items).forM f) s = outcome (f i >>= fun _ => items.forM f) s := rfl

theorem outcome_tryCatch (m : ExceptT ε (StateM σ) α) (f : ε → ExceptT ε (StateM σ) α) :
    outcome (tryCatch m f) s = match outcome m s with
      | (.ok a, t) => (.ok a, t)
      | (.error e, t) => outcome (f e) t := by
  unfold outcome ExceptT.run StateT.run Id.run
  simp only [tryCatch, tryCatchThe, MonadExceptOf.tryCatch, ExceptT.tryCatch, ExceptT.mk, bind,
    StateT.bind]
  cases m s with
  | mk result t => cases result <;> rfl

end Outcome

/-! ## Specifications of composed steps -/

namespace Ensures

variable {s : σ} {m : ExceptT ε (StateM σ) α} {ok : α → σ → Prop} {bad : ε → σ → Prop}

theorem of_eq (result : Except ε α × σ) (h : outcome m s = result)
    (hresult : match result with
      | (.ok a, t) => ok a t
      | (.error e, t) => bad e t) : Ensures m s ok bad := by
  unfold Ensures
  rw [h]
  rcases result with ⟨a | e, t⟩ <;> exact hresult

theorem ok_of_outcome {a : α} {t : σ} (h : Ensures m s ok bad)
    (houtcome : outcome m s = (.ok a, t)) : ok a t := by
  unfold Ensures at h
  rwa [houtcome] at h

theorem bad_of_outcome {e : ε} {t : σ} (h : Ensures m s ok bad)
    (houtcome : outcome m s = (.error e, t)) : bad e t := by
  unfold Ensures at h
  rwa [houtcome] at h

/-- A step that cannot fail gives a result. -/
theorem exists_ok (h : Ensures m s ok fun _ _ => False) :
    ∃ a t, outcome m s = (.ok a, t) ∧ ok a t := by
  unfold Ensures at h
  split at h
  next a t heq => exact ⟨a, t, heq, h⟩
  next => exact h.elim

/-- What holds of the state that is left, however the step ends. -/
theorem of_state {inv : σ → Prop} (h : inv (outcome m s).2) :
    Ensures m s (fun _ => inv) (fun _ => inv) := by
  unfold Ensures
  split
  next heq => rwa [heq] at h
  next heq => rwa [heq] at h

/-- What holds however the step ends holds of the state that it leaves. -/
theorem state {inv : σ → Prop} (h : Ensures m s (fun _ => inv) (fun _ => inv)) :
    inv (outcome m s).2 := by
  unfold Ensures at h
  split at h
  next heq => rwa [heq]
  next heq => rwa [heq]

/-- How the step ends may be used in what is said of its end. -/
theorem traced (h : Ensures m s ok bad) :
    Ensures m s (fun a t => ok a t ∧ outcome m s = (.ok a, t))
      (fun e t => bad e t ∧ outcome m s = (.error e, t)) := by
  unfold Ensures at h ⊢
  split at h
  next heq => exact ⟨h, heq⟩
  next heq => exact ⟨h, heq⟩

protected theorem mono {ok' : α → σ → Prop} {bad' : ε → σ → Prop} (h : Ensures m s ok bad)
    (hok : ∀ a t, ok a t → ok' a t) (hbad : ∀ e t, bad e t → bad' e t) : Ensures m s ok' bad' := by
  unfold Ensures at h ⊢
  split at h
  next => exact hok _ _ h
  next => exact hbad _ _ h

protected theorem and {ok' : α → σ → Prop} {bad' : ε → σ → Prop} (h : Ensures m s ok bad)
    (h' : Ensures m s ok' bad') :
    Ensures m s (fun a t => ok a t ∧ ok' a t) (fun e t => bad e t ∧ bad' e t) := by
  unfold Ensures at h h' ⊢
  generalize outcome m s = result at h h' ⊢
  obtain ⟨_ | _, t⟩ := result
  · exact ⟨h, h'⟩
  · exact ⟨h, h'⟩

protected theorem pure {a : α} (h : ok a s) :
    Ensures (pure a : ExceptT ε (StateM σ) α) s ok bad := h

protected theorem throw {e : ε} (h : bad e s) :
    Ensures (throw e : ExceptT ε (StateM σ) α) s ok bad := h

protected theorem get {ok : σ → σ → Prop} (h : ok s s) :
    Ensures (get : ExceptT ε (StateM σ) σ) s ok bad := h

protected theorem modify {f : σ → σ} {ok : PUnit → σ → Prop} (h : ok ⟨⟩ (f s)) :
    Ensures (modify f : ExceptT ε (StateM σ) PUnit) s ok bad := h

protected theorem modifyGet {f : σ → α × σ} (h : ok (f s).1 (f s).2) :
    Ensures (modifyGet f : ExceptT ε (StateM σ) α) s ok bad := h

protected theorem bind {f : α → ExceptT ε (StateM σ) β} {ok : β → σ → Prop}
    (h : Ensures m s (fun a t => Ensures (f a) t ok bad) bad) : Ensures (m >>= f) s ok bad := by
  unfold Ensures at h ⊢
  rw [outcome_bind]
  split at h <;> exact h

protected theorem map {f : α → β} {ok : β → σ → Prop}
    (h : Ensures m s (fun a t => ok (f a) t) bad) :
    Ensures (f <$> m) s ok bad := by
  unfold Ensures at h ⊢
  rw [outcome_map]
  split at h <;> exact h

protected theorem tryCatch {f : ε → ExceptT ε (StateM σ) α}
    (h : Ensures m s ok fun e t => Ensures (f e) t ok bad) :
    Ensures (tryCatch m f) s ok bad := by
  unfold Ensures at h ⊢
  rw [outcome_tryCatch]
  split at h <;> exact h

/-! ## Loops

A loop is specified by what holds of the items that are left and the state in which the loop
comes to them.
-/

variable {ι : Type}

protected theorem forM {f : ι → ExceptT ε (StateM σ) PUnit} {items : List ι}
    (inv : List ι → σ → Prop) (hstart : inv items s)
    (hstep : ∀ i rest t, inv (i :: rest) t → Ensures (f i) t (fun _ => inv rest) bad) :
    Ensures (items.forM f) s (fun _ => inv []) bad := by
  induction items generalizing s with
  | nil => exact Ensures.pure hstart
  | cons i rest ih =>
      exact Ensures.bind ((hstep i rest s hstart).mono (fun _ _ h => ih h) fun _ _ => id)

protected theorem foldlM {f : β → ι → ExceptT ε (StateM σ) β} {items : List ι} {start : β}
    (inv : List ι → β → σ → Prop) (hstart : inv items start s)
    (hstep : ∀ i rest b t, inv (i :: rest) b t → Ensures (f b i) t (inv rest) bad) :
    Ensures (items.foldlM f start) s (inv []) bad := by
  induction items generalizing s start with
  | nil => exact Ensures.pure hstart
  | cons i rest ih =>
      rw [List.foldlM_cons]
      exact Ensures.bind ((hstep i rest start s hstart).mono (fun _ _ h => ih h) fun _ _ => id)

/-- The invariant of `mapM` also speaks of the results so far. -/
protected theorem mapM {f : ι → ExceptT ε (StateM σ) β} {items : List ι} (results : List β)
    (inv : List ι → List β → σ → Prop) (hstart : inv items results s)
    (hstep : ∀ i rest bs t, inv (i :: rest) bs t →
      Ensures (f i) t (fun b => inv rest (bs ++ [b])) bad) :
    Ensures (items.mapM f) s (fun bs => inv [] (results ++ bs)) bad := by
  induction items generalizing s results with
  | nil =>
      rw [List.mapM_nil]
      refine Ensures.pure ?_
      rwa [List.append_nil]
  | cons i rest ih =>
      rw [List.mapM_cons]
      refine Ensures.bind ((hstep i rest results s hstart).mono ?_ fun _ _ => id)
      intro b t hb
      refine Ensures.bind ((ih (results ++ [b]) hb).mono ?_ fun _ _ => id)
      intro bs t' hbs
      refine Ensures.pure ?_
      rwa [List.append_assoc] at hbs

end Ensures

/-! ## Invariants -/

/-- The property, once it holds, goes on to hold, however the step ends. -/
def Holds (inv : σ → Prop) (m : ExceptT ε (StateM σ) α) : Prop :=
  ∀ s, inv s → Ensures m s (fun _ => inv) fun _ => inv

namespace Holds

variable {ι : Type} {inv : σ → Prop} {m : ExceptT ε (StateM σ) α}

protected theorem pure (a : α) : Holds inv (pure a : ExceptT ε (StateM σ) α) :=
  fun _ hs => Ensures.pure hs

protected theorem throw (e : ε) : Holds inv (throw e : ExceptT ε (StateM σ) α) :=
  fun _ hs => Ensures.throw hs

protected theorem get : Holds inv (get : ExceptT ε (StateM σ) σ) := fun _ hs => Ensures.get hs

protected theorem modify {f : σ → σ} (hf : ∀ s, inv s → inv (f s)) :
    Holds inv (modify f : ExceptT ε (StateM σ) PUnit) :=
  fun s hs => Ensures.modify (hf s hs)

protected theorem modifyGet {f : σ → α × σ} (hf : ∀ s, inv s → inv (f s).2) :
    Holds inv (modifyGet f : ExceptT ε (StateM σ) α) :=
  fun s hs => Ensures.modifyGet (hf s hs)

protected theorem bind {k : α → ExceptT ε (StateM σ) β} (hm : Holds inv m)
    (hk : ∀ a, Holds inv (k a)) : Holds inv (m >>= k) :=
  fun s hs => Ensures.bind ((hm s hs).mono (fun a t ht => hk a t ht) fun _ _ => id)

protected theorem map {f : α → β} (hm : Holds inv m) : Holds inv (f <$> m) :=
  fun s hs => Ensures.map (hm s hs)

protected theorem forM {k : ι → ExceptT ε (StateM σ) PUnit} (hk : ∀ i, Holds inv (k i))
    (items : List ι) : Holds inv (items.forM k) :=
  fun _ hs => Ensures.forM (fun _ => inv) hs fun i _ t ht => hk i t ht

protected theorem mapM {k : ι → ExceptT ε (StateM σ) β} (hk : ∀ i, Holds inv (k i))
    (items : List ι) : Holds inv (items.mapM k) :=
  fun _ hs => Ensures.mapM [] (fun _ _ => inv) hs fun i _ _ t ht => hk i t ht

protected theorem foldlM {k : β → ι → ExceptT ε (StateM σ) β} (hk : ∀ b i, Holds inv (k b i))
    (items : List ι) (start : β) : Holds inv (items.foldlM k start) :=
  fun _ hs => Ensures.foldlM (fun _ _ => inv) hs fun i _ b t ht => hk b i t ht

end Holds

-- The rules are all that is used of specifications: to unfold one would be to run the step.
attribute [irreducible] Ensures

end PageTemplate
