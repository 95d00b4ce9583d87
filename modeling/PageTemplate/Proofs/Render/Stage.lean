import PageTemplate.Proofs.Ensures
import PageTemplate.Proofs.Expression.MacroValues
import PageTemplate.Proofs.Markup.FragmentReading
import PageTemplate.Proofs.Render.Authored
import PageTemplate.Render.Outcome

/-! # What a walk relies on

When a walk begins, the macros have been published. From then on, what does not lie below the
document node stays as it is, macros among it, and values hold only published macros. An element
that is still to be rendered, with everything below it, stems from templates and libraries; its
level counts the nodes on a way down and the macros that may still be entered.
-/

namespace PageTemplate

open Markup Document

/-- What the host brings along makes up no macros. -/
structure Settings.IsFaithful (settings : Settings) : Prop where
  functions : ∀ name f, settings.functions name = some f → HostFunction.IsFaithful f
  modules : ∀ entry ∈ settings.modules, entry.2.IsFaithful
  options : ∀ entry ∈ settings.options, entry.2.MacroFree

/-- The visitor leaves the tree and the global bindings as they are. It goes on with the context
that it was given, or fails. -/
def Visitor.IsTame (visitor : Visitor) : Prop :=
  ∀ ctx s, Ensures (visitor.visit ctx) s
    (fun c t => c = ctx ∧ t.document = s.document ∧ t.globals = s.globals)
    (fun stop t => stop ≠ .exhausted ∧ t.document = s.document ∧ t.globals = s.globals)

/-- The element writes a value into the document, in the given mode. -/
def Context.Writes (settings : Settings) (ctx : Context) (d : Document)
    (mode : Directive.ContentMode) : Prop :=
  ∃ spec ∈ [settings.vocabularies.content, settings.vocabularies.replace,
      settings.vocabularies.onError],
    ∃ written expression, ctx.directive? d spec = some written ∧
      Directive.readContent written = .ok (mode, expression)

/-- The element writes a value as markup, and the error is one of reading markup. -/
def Context.Misreads (settings : Settings) (ctx : Context) (d : Document) (error : MarkupError) :
    Prop :=
  ctx.Writes settings d .markup ∧ ∃ markup, (outcome (parseFragment markup) d).1 = .error error

/-- The error says that the tree could not be read or edited. -/
def RenderError.IsTree : RenderError → Prop
  | .tree _ => True
  | _ => False

/-- The tree is not what the step failed at. -/
def Stop.SparesTree : Stop → Prop
  | .exhausted => False
  | .failed error => ¬ error.IsTree

/-- How the rendering of an element may stop: of the errors of the tree, only with those of reading
a value as markup. -/
def Stop.ArisesAt (settings : Settings) (ctx : Context) (d : Document) : Stop → Prop
  | .exhausted => False
  | .failed (.tree error) => ctx.Misreads settings d error
  | .failed _ => True

/-- A rendering may stop for the reason: of the errors of the tree, only for those of reading
markup. -/
def Stop.IsExpected : Stop → Prop
  | .exhausted => False
  | .failed (.tree error) => error.IsReading
  | .failed _ => True

section

variable {settings : Settings} {ctx : Context} {d : Document}

theorem Stop.SparesTree.arisesAt {stop : Stop} (h : stop.SparesTree) :
    stop.ArisesAt settings ctx d := by
  cases stop with
  | exhausted => exact h
  | failed error => cases error <;> first | trivial | exact absurd trivial h

theorem Stop.ArisesAt.isExpected {stop : Stop} (h : stop.ArisesAt settings ctx d) :
    stop.IsExpected := by
  cases stop with
  | exhausted => exact h
  | failed error =>
      cases error with
      | tree error =>
          obtain ⟨-, markup, hread⟩ := h
          exact readingFault_parseFragment markup d error hread
      | _ => trivial

theorem Stop.IsExpected.ne_exhausted {stop : Stop} (h : stop.IsExpected) : stop ≠ .exhausted := by
  rintro rfl
  exact h

end

/-- A tree of its own, outside the tree of the document, that stems from the origins. -/
structure Apart (origin : NodeKind → Prop) (d : Document) (top : NodeId) : Prop where
  lt : top < d.size
  ne_root : top ≠ root
  parent_eq : d.parent top = none
  stems : ∀ n, d.Below top n → Stems origin (d.kind n)

/-- A macro that was published: an element of a tree of its own. -/
def Published (origin : NodeKind → Prop) (d : Document) (reference : MacroRef) : Prop :=
  ∃ top, Apart origin d top ∧ d.Below top reference.element

/-- A macro that can be used: a published one that is an element. -/
def Usable (origin : NodeKind → Prop) (d : Document) (reference : MacroRef) : Prop :=
  Published origin d reference ∧ d.isElement reference.element = true

/-- What stays the same while a walk lasts: the settings, the nodes of templates and libraries,
and the document with which the walk began. -/
structure Stage where
  settings : Settings
  origin : NodeKind → Prop
  base : Document
  linked : base.WellLinked
  stems : ∀ n, base.Below root n → Stems origin (base.kind n)
  faithful : settings.IsFaithful
  tame : ∀ visitor ∈ settings.visitors, visitor.IsTame

namespace Stage

variable (stage : Stage)

/-- The macros of the walk. -/
abbrev Known : MacroRef → Prop := Usable stage.origin stage.base

/-- A visitor may be what failed. -/
def Objects (stop : Stop) : Prop := stage.settings.visitors ≠ [] ∧ stop ≠ .exhausted

/-- A state of the walk: only what lies below the document node has changed, and values hold only
macros of the walk. -/
structure Sound (s : RenderState) : Prop where
  kept : Confined (stage.base.own root) stage.base s.document
  globals : s.globals.AllMacros stage.Known

/-- The limits that a context keeps to. -/
structure Admits (ctx : Context) : Prop where
  scope : ctx.scope.AllMacros stage.Known
  written : ∀ attr ∈ ctx.written, Authored stage.origin attr.value
  depth : ctx.macroStack.length ≤ stage.settings.maxMacroDepth

/-- The levels that the macros may add that can still be entered. -/
def reserve (ctx : Context) : Nat :=
  (stage.settings.maxMacroDepth - ctx.macroStack.length) *
    (stage.settings.maxMacroDepth * stage.base.size)

/-- The element and everything below it are good markup of the template, at most `level` levels
deep with the macros that may still be entered. The attributes are those that were written. -/
def Pending (ok : NodeId → Prop) (level : Nat) (d : Document) (ctx : Context) : Prop :=
  ctx.rendersChildren = true ∧ ctx.written = d.attributes ctx.node ∧
    ∃ h, Throughout (StemsOn stage.origin ok) d h ctx.node ∧ h + stage.reserve ctx ≤ level

/-- If the children of the element are to be rendered, they are good markup of the template. -/
def Open (ok : NodeId → Prop) (level : Nat) (d : Document) (ctx : Context) : Prop :=
  ok ctx.node ∧ (ctx.rendersChildren = true → ∃ h,
    (∀ c ∈ d.children ctx.node, Throughout (StemsOn stage.origin ok) d h c) ∧
    h + stage.reserve ctx ≤ level)

/-- What steps within a region have done. -/
structure Turn (R : NodeId → Prop) (p : NodeId) (s t : RenderState) : Prop where
  within : Within R p s.document t.document
  globals : t.globals.AllMacros stage.Known

/-- A failure at an element that leaves what steps within a region have done, and leaves the
element where it was. -/
structure Fails (R : NodeId → Prop) (p : NodeId) (ctx : Context) (s : RenderState) (stop : Stop)
    (t : RenderState) : Prop where
  stop : stop.ArisesAt stage.settings ctx s.document
  turn : stage.Turn R p s t
  parent_eq : t.document.parent ctx.node = s.document.parent ctx.node

variable {stage} {R : NodeId → Prop} {p x n m : NodeId} {s t u : RenderState} {ctx : Context}
  {ok ok' : NodeId → Prop} {level : Nat} {d d' : Document}

namespace Sound

theorem cached (h : stage.Sound s) (cache : ExpressionCache) : stage.Sound { s with cache } :=
  ⟨h.kept, h.globals⟩

/-- New nodes leave the published macros as they are. -/
theorem extended (h : stage.Sound s) (hgrown : Extends s.document d) :
    Confined (stage.base.own root) stage.base d :=
  h.kept.trans (hgrown.mono fun _ hn => .inr (Nat.le_trans h.kept.size_le hn))

end Sound

namespace Turn

protected theorem refl (hlinked : s.document.WellLinked)
    (hglobals : s.globals.AllMacros stage.Known) : stage.Turn R p s s :=
  ⟨.refl hlinked, hglobals⟩

protected theorem trans (h : stage.Turn R p s t) (h' : stage.Turn R p t u) :
    stage.Turn R p s u :=
  ⟨h.within.trans h'.within, h'.globals⟩

theorem cached (h : stage.Turn R p s t) (cache : ExpressionCache) :
    stage.Turn R p s { t with cache } :=
  ⟨h.within, h.globals⟩

theorem change (h : stage.Turn R p s t) (hwithin : Within R p t.document d) :
    stage.Turn R p s { t with document := d } :=
  ⟨h.within.trans hwithin, h.globals⟩

end Turn

/-! ## Macros -/

/-- What belongs to a tree of its own never changes. -/
theorem kept_apart (hkept : Confined (stage.base.own root) stage.base d) {top : NodeId}
    (h : Apart stage.origin stage.base top) :
    (∀ m, d.Below top m ↔ stage.base.Below top m) ∧
      ∀ m, stage.base.Below top m → d.node m = stage.base.node m := by
  have hout : ∀ m, stage.base.Below top m → ¬ stage.base.own root m := by
    rintro m hm (hroot | hsize)
    · exact h.ne_root (stage.linked.eq_of_below h.parent_eq stage.linked.parent_root hm hroot)
    · exact absurd (stage.linked.below_lt hm h.lt) (Nat.not_lt_of_le hsize)
  exact ⟨fun m => hkept.below_iff hout, fun m hm => hkept.same m (hout m hm)⟩

/-- Where the trees of their own are, nothing has been put and nothing is missing. -/
theorem apart_of_kept (hkept : Confined (stage.base.own root) stage.base d) {top : NodeId}
    (h : Apart stage.origin stage.base top) : Apart stage.origin d top := by
  obtain ⟨hbelow, hsame⟩ := kept_apart hkept h
  refine ⟨Nat.lt_of_lt_of_le h.lt hkept.size_le, h.ne_root, ?_, fun n hn => ?_⟩
  · unfold Document.parent
    rw [hsame top .refl]
    exact h.parent_eq
  · have hn' := (hbelow n).mp hn
    unfold Document.kind
    rw [hsame n hn']
    exact h.stems n hn'

end Stage

/-- An element of a tree of its own stems from the origins, with everything above and below it. -/
theorem Apart.throughout {origin : NodeKind → Prop} {d : Document} {top n : NodeId}
    (h : Apart origin d top) (hlinked : d.WellLinked) (hn : d.Below top n) :
    Throughout (StemsOn origin fun _ => True) d d.size n ∧
      ∀ m, d.Below m n → Stems origin (d.kind m) := by
  refine ⟨throughout_of_rooted hlinked h.parent_eq hn (hlinked.below_lt hn h.lt) fun m hm =>
    ⟨trivial, h.stems m (hn.trans hm)⟩, fun m hm => ?_⟩
  rcases hlinked.below_total hm hn with hback | hdown
  · rcases hlinked.below_cases hback with rfl | ⟨q, hq, -⟩
    · exact h.stems top .refl
    · rw [h.parent_eq] at hq
      cases hq
  · exact h.stems m hdown

namespace Stage

variable {stage : Stage} {R : NodeId → Prop} {p x n m : NodeId} {s t u : RenderState}
  {ctx : Context} {ok ok' : NodeId → Prop} {level : Nat} {d d' : Document}

/-- A published macro is still what it was when the walk began. -/
theorem throughout_published (hkept : Confined (stage.base.own root) stage.base d)
    {reference : MacroRef} (h : Published stage.origin stage.base reference)
    (hok : ∀ n, n < stage.base.size → ok n) :
    Throughout (StemsOn stage.origin ok) d stage.base.size reference.element ∧
      ∀ m, d.Below m reference.element → Stems stage.origin (d.kind m) := by
  obtain ⟨top, hapart, hbelow⟩ := h
  obtain ⟨hiff, hsame⟩ := kept_apart hkept hapart
  have hgood := (hapart.throughout stage.linked hbelow).1
  have hlt := fun m hm => stage.linked.below_lt (hbelow.trans hm) hapart.lt (n := m)
  refine ⟨hgood.congr (fun m hm => ?_) fun m hm hm' => ?_, ?_⟩
  · unfold Document.children
    rw [hsame m (hbelow.trans hm)]
    exact List.Subset.refl _
  · unfold Document.kind
    rw [hsame m (hbelow.trans hm)]
    exact ⟨hok m (hlt m hm), hm'.2⟩
  · exact ((apart_of_kept hkept hapart).throughout hkept.linked ((hiff _).mpr hbelow)).2

/-! ## Elements that are to be rendered -/

theorem Pending.congr (h : stage.Pending ok level d ctx)
    (hsame : ∀ m, d.Below ctx.node m → d'.node m = d.node m)
    (hok : ∀ m, d.Below ctx.node m → ok m → ok' m) : stage.Pending ok' level d' ctx := by
  obtain ⟨hrenders, hwritten, k, hgood, hlevel⟩ := h
  refine ⟨hrenders, ?_, k, hgood.congr (fun m hm => ?_) (fun m hm hm' => ?_), hlevel⟩
  · rw [hwritten, attributes_congr (congrArg Node.kind (hsame _ .refl))]
  · unfold Document.children
    rw [hsame m hm]
    exact List.Subset.refl _
  · unfold Document.kind
    rw [hsame m hm]
    exact ⟨hok m hm hm'.1, hm'.2⟩

theorem Open.congr (h : stage.Open ok level d ctx) (hself : ok ctx.node → ok' ctx.node)
    (hchildren : d'.children ctx.node ⊆ d.children ctx.node)
    (hsame : ∀ c ∈ d.children ctx.node, ∀ m, d.Below c m →
      d'.children m ⊆ d.children m ∧ d'.kind m = d.kind m)
    (hok : ∀ c ∈ d.children ctx.node, ∀ m, d.Below c m → ok m → ok' m) :
    stage.Open ok' level d' ctx := by
  refine ⟨hself h.1, fun hrenders => ?_⟩
  obtain ⟨k, hgood, hlevel⟩ := h.2 hrenders
  refine ⟨k, fun c hc => ?_, hlevel⟩
  replace hc := hchildren hc
  refine (hgood c hc).congr (fun m hm => (hsame c hc m hm).1) (fun m hm hm' => ?_)
  rw [(hsame c hc m hm).2]
  exact ⟨hok c hc m hm hm'.1, hm'.2⟩

/-- An element with its children takes one level more than the children alone. -/
theorem Pending.open (h : stage.Pending ok (level + 1) d ctx) : stage.Open ok level d ctx := by
  obtain ⟨-, -, k, hgood, hlevel⟩ := h
  cases k with
  | zero => exact hgood.elim
  | succ k => exact ⟨hgood.1.1, fun _ => ⟨k, hgood.2, by omega⟩⟩

/-- The context of a child keeps to the limits, and the child is to be rendered. -/
theorem Admits.child (h : stage.Admits ctx) {k : Nat}
    (hgood : Throughout (StemsOn stage.origin ok) d k n) (hlevel : k + stage.reserve ctx ≤ level) :
    stage.Admits (ctx.child d n) ∧ stage.Pending ok level d (ctx.child d n) :=
  ⟨⟨h.scope.child, hgood.self.2.attributes, h.depth⟩, rfl, rfl, k, hgood, hlevel⟩

/-- The context of a child of an element whose children are to be rendered. -/
theorem Open.child (h : stage.Open ok level d ctx) (hrenders : ctx.rendersChildren = true)
    (hadmits : stage.Admits ctx) (hc : n ∈ d.children ctx.node)
    (hsame : ∀ m, d.Below n m → d'.children m ⊆ d.children m ∧ d'.kind m = d.kind m) :
    stage.Admits (ctx.child d' n) ∧ stage.Pending ok level d' (ctx.child d' n) := by
  obtain ⟨k, hgood, hlevel⟩ := h.2 hrenders
  exact hadmits.child ((hgood n hc).congr (fun m hm => (hsame m hm).1) fun m hm hm' => by
    rwa [(hsame m hm).2]) hlevel

/-! ## Elements in their places -/

/-- An element stands below `p` in a region, in a context that keeps to the limits. -/
structure Placed (stage : Stage) (R : NodeId → Prop) (p : NodeId) (d : Document) (ctx : Context) :
    Prop where
  admits : stage.Admits ctx
  mem : R ctx.node
  parent_eq : d.parent ctx.node = some p
  element : d.isElement ctx.node = true

/-- The contexts that a directive hands on satisfy `next`, those it exposes are pending, and all
are about different elements. -/
structure Hands (stage : Stage) (next : Document → Context → Prop) (ok : NodeId → Prop)
    (level : Nat) (R : NodeId → Prop) (p : NodeId) (d : Document) (outcome : Outcome) : Prop where
  contexts : ∀ ctx ∈ outcome.contexts, stage.Placed R p d ctx ∧ next d ctx
  exposed : ∀ ctx ∈ outcome.exposed, stage.Placed R p d ctx ∧ stage.Pending ok level d ctx
  nodup : (outcome.contexts.map (·.node) ++ outcome.exposed.map (·.node)).Nodup

theorem hands_removed {next : Document → Context → Prop} :
    stage.Hands next ok level R p d .removed :=
  ⟨by simp [Outcome.removed], by simp [Outcome.removed], by simp [Outcome.removed]⟩

theorem hands_keep {next : Document → Context → Prop} (hplaced : stage.Placed R p d ctx)
    (hnext : next d ctx) : stage.Hands next ok level R p d (.keep ctx) := by
  refine ⟨fun c hc => ?_, by simp [Outcome.keep], by simp [Outcome.keep]⟩
  obtain rfl := List.mem_singleton.mp hc
  exact ⟨hplaced, hnext⟩

/-- An element of a region is worked on, in a context that keeps to the limits. -/
structure Works (stage : Stage) (R : NodeId → Prop) (p : NodeId) (s : RenderState)
    (ctx : Context) : Prop where
  region : Region R p s.document
  mem : R ctx.node
  element : s.document.isElement ctx.node = true
  globals : s.globals.AllMacros stage.Known
  admits : stage.Admits ctx

namespace Works

variable (h : stage.Works R p s ctx)

include h

theorem turn : stage.Turn R p s s := .refl h.region.linked h.globals

theorem lt : ctx.node < s.document.size := lt_size_of_isElement h.element

theorem fails (error : RenderError) (cache : ExpressionCache) (herror : ¬ error.IsTree) :
    stage.Fails R p ctx s (.failed error) { s with cache } := by
  have hspares : Stop.SparesTree (.failed error) := herror
  exact ⟨hspares.arisesAt, h.turn.cached cache, rfl⟩

theorem next (hturn : stage.Turn R p s t) : stage.Works R p t ctx :=
  ⟨h.region.within hturn.within, h.mem, hturn.within.elements _ h.element, hturn.globals,
    h.admits⟩

end Works

/-- An element is about to be worked on: it stands below `p` in its own region. -/
structure Standing (stage : Stage) (p : NodeId) (s : RenderState) (ctx : Context) : Prop where
  linked : s.document.WellLinked
  rooted : s.document.Rooted p
  parent_eq : s.document.parent ctx.node = some p
  element : s.document.isElement ctx.node = true
  globals : s.globals.AllMacros stage.Known
  admits : stage.Admits ctx

namespace Standing

variable (h : stage.Standing p s ctx)

include h

theorem works : stage.Works (s.document.own ctx.node) p s ctx :=
  ⟨region_own h.linked h.rooted h.parent_eq, own_self _ _, h.element, h.globals, h.admits⟩

theorem region : Region (s.document.own ctx.node) p s.document := h.works.region

theorem placed : stage.Placed (s.document.own ctx.node) p s.document ctx :=
  ⟨h.admits, own_self _ _, h.parent_eq, h.element⟩

theorem turn : stage.Turn (s.document.own ctx.node) p s s := h.works.turn

theorem node_lt : ctx.node < s.document.size := h.works.lt

theorem fails (error : RenderError) (cache : ExpressionCache) (herror : ¬ error.IsTree) :
    stage.Fails (s.document.own ctx.node) p ctx s (.failed error) { s with cache } :=
  h.works.fails error cache herror

end Standing

end Stage

end PageTemplate
