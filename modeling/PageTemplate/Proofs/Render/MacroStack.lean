import PageTemplate.Proofs.Ensures
import PageTemplate.Render.Walk

/-! # Macros that an element lies in

A context remembers the macros whose expansions lie around its element. A directive hands on
contexts that remember the same macros, whatever it does to the element, and only an expansion
adds one. So the limit on the number of macros, which an expansion obeys, holds for every context.
-/

namespace PageTemplate

open Markup

/-- Every result has the property, whatever the step does to the state. -/
def Returns {α : Type} (good : α → Prop) (m : Rendering α) : Prop :=
  ∀ s, Ensures m s (fun a _ => good a) fun _ _ => True

namespace Returns

variable {α β ι : Type} {good : α → Prop} {next : β → Prop} {m : Rendering α}

theorem any (m : Rendering α) : Returns (fun _ => True) m :=
  fun _ => .of_state trivial

protected theorem pure {a : α} (h : good a) : Returns good (pure a) :=
  fun _ => Ensures.pure h

protected theorem fail (error : RenderError) : Returns good (Rendering.fail error) :=
  fun _ => Ensures.throw trivial

protected theorem bind {f : α → Rendering β} (hm : Returns good m)
    (hf : ∀ a, good a → Returns next (f a)) : Returns next (m >>= f) :=
  fun s => Ensures.bind ((hm s).mono (fun a t ha => hf a ha t) fun _ _ => id)

/-- What comes before does not matter for the result. -/
theorem after {f : α → Rendering β} (hf : ∀ a, Returns next (f a)) : Returns next (m >>= f) :=
  (any m).bind fun a _ => hf a

protected theorem foldlM (good : α → Prop) {f : α → ι → Rendering α} {items : List ι} {start : α}
    (hstart : good start)
    (hf : ∀ a i, good a → Returns good (f a i)) :
    Returns good (items.foldlM f start) :=
  fun _ => Ensures.foldlM (fun _ a _ => good a) hstart fun i _ a t ha => hf a i ha t

protected theorem mapM {f : ι → Rendering β} {items : List ι} (hf : ∀ i, Returns next (f i)) :
    Returns (fun bs => ∀ b ∈ bs, next b) (items.mapM f) := by
  intro s
  refine (Ensures.mapM [] (fun _ bs _ => ∀ b ∈ bs, next b) (by simp) fun i _ bs t hbs => ?_)
  refine (hf i t).mono (fun b _ hb => ?_) fun _ _ => id
  intro c hc
  rcases List.mem_append.mp hc with hc | hc
  · exact hbs c hc
  · exact List.mem_singleton.mp hc ▸ hb

end Returns

/-- All contexts that are handed on lie in the same macros as the context. -/
def Outcome.SameMacros (ctx : Context) (outcome : Outcome) : Prop :=
  ∀ c ∈ outcome.contexts ++ outcome.exposed, c.macroStack = ctx.macroStack

section

variable (settings : Settings) {ctx c : Context}

theorem sameMacros_keep (h : c.macroStack = ctx.macroStack) :
    (Outcome.keep c).SameMacros ctx := by
  simp [Outcome.SameMacros, Outcome.keep, h]

theorem sameMacros_removed : Outcome.removed.SameMacros ctx := by
  simp [Outcome.SameMacros, Outcome.removed]

theorem sameMacros_expose (d : Document) (promoted : List NodeId) :
    Outcome.SameMacros ctx { exposed := exposeChildren d ctx promoted } := by
  intro c hc
  simp only [List.nil_append, exposeChildren] at hc
  obtain ⟨n, -, rfl⟩ := List.mem_map.mp hc
  rfl

theorem Define.returns_handle (ctx : Context) :
    Returns (Outcome.SameMacros ctx) (Define.handle settings ctx) := by
  unfold Define.handle
  refine .after fun d => ?_
  split
  · exact .pure (sameMacros_keep rfl)
  refine .bind (.foldlM (fun c => c.macroStack = ctx.macroStack) rfl fun c item hc => ?_)
    fun c hc => .pure (sameMacros_keep hc)
  unfold Define.defineItem
  refine .after fun definition => .after fun target => .after fun value => ?_
  split
  · exact .pure hc
  split
  · exact .pure hc
  · exact .after fun _ => .pure hc

theorem Condition.returns_handle (ctx : Context) :
    Returns (Outcome.SameMacros ctx) (Condition.handle settings ctx) := by
  unfold Condition.handle
  refine .after fun d => ?_
  split
  · exact .pure (sameMacros_keep rfl)
  refine .after fun value => ?_
  split
  · exact .pure (sameMacros_keep rfl)
  · exact .after fun _ => .pure sameMacros_removed

theorem Repeat.returns_handle (ctx : Context) :
    Returns (Outcome.SameMacros ctx) (Repeat.handle settings ctx) := by
  unfold Repeat.handle
  refine .after fun d => ?_
  split
  · exact .pure (sameMacros_keep rfl)
  refine .after fun written => .after fun result => ?_
  split
  · exact .pure (sameMacros_keep rfl)
  split
  · exact .after fun d => .fail _
  have hcopy : ∀ (name : String) (count : Nat) (item : Value × Nat),
      Returns (fun c => c.macroStack = ctx.macroStack)
        (copyFor settings ctx name count item.1 item.2) := fun _ _ _ =>
    .after fun copy => .after fun _ => .after fun _ => .after fun d => .pure rfl
  refine .bind (.mapM fun item => hcopy _ _ item) fun contexts hcontexts => ?_
  refine .after fun _ => .pure fun c hc => hcontexts c ?_
  simpa using hc

theorem Content.returns_handle (ctx : Context) :
    Returns (Outcome.SameMacros ctx) (Content.handle settings ctx) := by
  unfold Content.handle
  refine .after fun d => ?_
  split
  · exact .fail _
  · unfold Content.handleContent
    refine .after fun written => .after fun result => ?_
    split
    · exact .pure (sameMacros_keep rfl)
    split
    · exact .after fun _ => .pure (sameMacros_keep rfl)
    · exact .after fun nodes => .after fun _ => .pure (sameMacros_keep rfl)
  · unfold Content.handleReplace
    refine .after fun written => .after fun result => ?_
    split
    · exact .after fun promoted => .after fun d => .pure (sameMacros_expose d promoted)
    split
    · exact .after fun _ => .pure sameMacros_removed
    · exact .after fun nodes => .after fun _ => .pure sameMacros_removed
  · exact .pure (sameMacros_keep rfl)

theorem Attributes.returns_handle (ctx : Context) :
    Returns (Outcome.SameMacros ctx) (Attributes.handle settings ctx) := by
  unfold Attributes.handle
  refine .after fun d => ?_
  split
  · exact .pure (sameMacros_keep rfl)
  · exact .after fun _ => .pure (sameMacros_keep rfl)

theorem OmitTag.returns_handle (ctx : Context) :
    Returns (Outcome.SameMacros ctx) (OmitTag.handle settings ctx) := by
  unfold OmitTag.handle
  refine .after fun d => ?_
  split
  · exact .pure (sameMacros_keep rfl)
  refine .after fun omits => ?_
  split
  · refine .after fun promoted => .after fun d => .pure ?_
    split
    · exact sameMacros_expose d promoted
    · exact sameMacros_removed
  · exact .pure (sameMacros_keep rfl)

/-- A directive hands on contexts that lie in the same macros. -/
theorem Handler.returns_handle (handler : Handler) (ctx : Context) :
    Returns (Outcome.SameMacros ctx) (handler.handle settings ctx) := by
  cases handler with
  | define => exact Define.returns_handle settings ctx
  | condition => exact Condition.returns_handle settings ctx
  | repetition => exact Repeat.returns_handle settings ctx
  | content => exact Content.returns_handle settings ctx
  | attributes => exact Attributes.returns_handle settings ctx
  | omitTag => exact OmitTag.returns_handle settings ctx

/-! ## The limit -/

/-- The context lies in no more macros than the settings allow. -/
def Context.Shallow (ctx : Context) : Prop := ctx.macroStack.length ≤ settings.maxMacroDepth

variable {settings}

theorem Expansion.returns_handle (h : ctx.Shallow settings) :
    Returns (Context.Shallow settings) (Expansion.handle settings ctx) := by
  unfold Expansion.handle
  refine .after fun d => ?_
  split
  · exact .pure h
  refine .after fun found => ?_
  split
  · exact .pure h
  split
  · exact .fail _
  next hdepth =>
    refine .after fun expanded => .after fun _ => .after fun d => .pure ?_
    have hentered : ∀ name, (ctx.enterMacro d expanded name).macroStack.length =
        ctx.macroStack.length + 1 := fun name => List.length_append
    unfold Context.Shallow
    rw [hentered]
    exact Nat.lt_of_not_le hdepth

/-- The context with which the rendering of an element goes on keeps to the limit. The visitor that
notes sources leaves it as it is. -/
theorem Walk.returns_prepare (hvisitors : settings.visitors = []) (h : ctx.Shallow settings) :
    Returns (Context.Shallow settings) (Walk.prepare settings ctx) := by
  unfold Walk.prepare
  refine .bind (Expansion.returns_handle h) fun c hc => ?_
  unfold visitors
  rw [hvisitors]
  split
  · exact .bind (.after fun _ => .pure hc) fun c hc => .pure hc
  · exact .pure hc

end

end PageTemplate
