import PageTemplate.Render.Context
import PageTemplate.Proofs.Ensures

/-! # What the cache of expressions holds

The cache spares the reading of a text that was read before. What it holds is what reading gives,
so the value of an expression does not depend on what was evaluated earlier.
-/

namespace PageTemplate

namespace ExpressionCache

variable {cache : ExpressionCache}

/-- Expressions are kept under the texts that they are read from. -/
def IsFaithful (cache : ExpressionCache) : Prop :=
  ∀ text entry, cache.entries.lookup text = some entry →
    Expression.parse text = .ok entry.expression

theorem isFaithful_empty : ({} : ExpressionCache).IsFaithful := nofun

/-- The cache gives what reading gives, and still does so afterwards. -/
theorem IsFaithful.get (h : cache.IsFaithful) (text : String) :
    (cache.get text).1.map (·.expression) = Expression.parse text ∧
      (cache.get text).2.IsFaithful := by
  unfold ExpressionCache.get
  split
  next entry hentry => exact ⟨(h text entry hentry).symm, h⟩
  next =>
    split
    next error herror => exact ⟨herror.symm, h⟩
    next expression hexpression =>
      refine ⟨hexpression.symm, fun text' entry hentry => ?_⟩
      simp only [List.lookup_cons] at hentry
      split at hentry
      next heq =>
        obtain rfl := eq_of_beq heq
        obtain rfl := Option.some.inj hentry
        exact hexpression
      next => exact h text' entry hentry

end ExpressionCache

/-- With a faithful cache an expression has the value that it has when it is read anew. -/
theorem Context.outcome_evaluate (ctx : Context) (settings : Settings) {s : RenderState}
    (hcache : s.cache.IsFaithful) (text : String) :
    outcome (ctx.evaluate settings text) s =
      (.ok (Expression.parse text >>= (ctx.environment settings s.globals).evaluate),
        { s with cache := (s.cache.get text).2 }) := by
  have hread := (hcache.get text).1
  unfold Context.evaluate
  rw [outcome_bind, outcome_modifyGet, ← hread]
  cases (s.cache.get text).1 <;> rfl

/-- The failure of a directive's expression names the directive, the element and the text. -/
theorem Context.outcome_evaluateDirective (ctx : Context) (settings : Settings) {s : RenderState}
    (hcache : s.cache.IsFaithful) (spec : Markup.AttributeSpec) (text : String) :
    outcome (ctx.evaluateDirective settings spec text) s =
      ((Expression.parse text >>= (ctx.environment settings s.globals).evaluate).mapError
          fun source =>
            .failed (.evaluation spec.text (describeElement s.document ctx.node) text source),
        { s with cache := (s.cache.get text).2 }) := by
  unfold Context.evaluateDirective
  rw [outcome_bind, ctx.outcome_evaluate settings hcache text]
  cases Expression.parse text >>= (ctx.environment settings s.globals).evaluate <;> rfl

end PageTemplate
