import PageTemplate.Proofs.Walk.Moments
import PageTemplate.Proofs.Walk.Siblings

/-! # Turns up to the end

What a child of an element is owed is what would come of it if all the work on it were done while
its siblings are left alone. A run that does the work by turns, in whatever order, comes to its end
exactly when all that is owed can be had, and then has given each child what it was owed. This is
shown turn by turn, so that it holds of every program whose parts are turns.
-/

namespace PageTemplate

open Markup Document Stage

namespace Walk.Recorded

variable {stage : Stage} {p x y : NodeId} {δ α β : Type} {routine : Routine stage p δ} {w w' : δ}
  {r r' t u start : Recording}

/-! ## The record -/

theorem Grows.andThen {m : Recorded α} {k : α → Recorded β} (hm : Grows m)
    (hk : ∀ a, Grows (k a)) : Grows (m >>= k) := by
  intro r
  obtain ⟨first, hfirst⟩ := hm r
  obtain ⟨second, hsecond⟩ := Grows.bind hk r
  exact ⟨first ++ second, by rw [hsecond, hfirst, List.append_assoc]⟩

theorem Grows.mapM {ι : Type} {f : ι → Recorded β} (hf : ∀ i, Grows (f i)) (items : List ι) :
    Grows (items.mapM f) := by
  induction items with
  | nil => exact grows_pure _
  | cons i items ih =>
      rw [List.mapM_cons]
      apply (hf i).andThen
      intro b
      exact ih.andThen fun bs => grows_pure _

/-- As long as no global variable has been bound, none had been bound before. -/
theorem BindsNoGlobal.earlier {m : Recorded α} {result : Except Stop α} (h : BindsNoGlobal u)
    (hgrows : Grows m) (hm : outcome m t = (result, u)) : BindsNoGlobal t := by
  obtain ⟨steps, hsteps⟩ := hgrows t
  rw [hm] at hsteps
  intro step hstep
  apply h step
  rw [hsteps]
  exact List.mem_append_left steps hstep

/-! ## What is owed -/

/-- Part by part, everything that is left to do gets done, and no part changes the global
bindings. -/
inductive Completes (routine : Routine stage p δ) : δ → Recording → Recording → Prop
  | done {w : δ} {r : Recording} (h : routine.next w = pure w) : Completes routine w r r
  | part {w w' : δ} {r r' a : Recording} (h : outcome (routine.next w) r = (.ok w', r'))
      (hglobals : r'.state.globals = r.state.globals) (hrest : Completes routine w' r' a) :
      Completes routine w r a

theorem Completes.exists_next (h : Completes routine w r t) :
    ∃ w' r', outcome (routine.next w) r = (.ok w', r') ∧
      r'.state.globals = r.state.globals := by
  cases h with
  | done h => exact ⟨w, r, congrArg (outcome · r) h, rfl⟩
  | part h hglobals _ => exact ⟨_, _, h, hglobals⟩

/-- The next part can be done first. -/
theorem completes_iff (h : outcome (routine.next w) r = (.ok w', r'))
    (hglobals : r'.state.globals = r.state.globals) :
    Completes routine w r t ↔ Completes routine w' r' t := by
  constructor
  · intro hcompletes
    cases hcompletes with
    | done hdone =>
        have hsame := h.symm.trans (congrArg (outcome · r) hdone)
        cases hsame
        exact .done hdone
    | part h' _ hrest =>
        have hsame := h.symm.trans h'
        cases hsame
        exact hrest
  · exact .part h hglobals

/-- When nothing is left to do, nothing more comes of it. -/
theorem Completes.eq_of_done (h : Completes routine w r t) (hdone : routine.next w = pure w) :
    t = r := by
  induction h with
  | done => rfl
  | part h _ _ ih =>
      have hsame := h.symm.trans (congrArg (outcome · _) hdone)
      cases hsame
      exact ih hdone

/-- Part by part, what is left to do is brought from `w` to `w'`, and no part changes the global
bindings. -/
inductive Reaches (routine : Routine stage p δ) : δ → Recording → δ → Recording → Prop
  | refl {w : δ} {r : Recording} : Reaches routine w r w r
  | part {w w' w'' : δ} {r r' r'' : Recording} (h : outcome (routine.next w) r = (.ok w', r'))
      (hglobals : r'.state.globals = r.state.globals) (hrest : Reaches routine w' r' w'' r'') :
      Reaches routine w r w'' r''

namespace Reaches

protected theorem trans {w'' : δ} {r'' : Recording} (h : Reaches routine w r w' r')
    (h' : Reaches routine w' r' w'' r'') : Reaches routine w r w'' r'' := by
  induction h with
  | refl => exact h'
  | part h hglobals _ ih => exact .part h hglobals (ih h')

/-- What has been done first does not matter for what comes of it all. -/
theorem completes_iff (h : Reaches routine w r w' r') :
    Completes routine w r t ↔ Completes routine w' r' t := by
  induction h with
  | refl => rfl
  | part h hglobals _ ih => exact (Recorded.completes_iff h hglobals).trans ih

theorem ready {R : NodeId → Prop} (h : Reaches routine w r w' r') (hfield : stage.Field R p r)
    (hready : routine.Ready R r w) : stage.Field R p r' ∧ routine.Ready R r' w' := by
  induction h with
  | refl => exact ⟨hfield, hready⟩
  | part h _ _ ih =>
      obtain ⟨hgoes, hready'⟩ := (routine.ensures hfield hready).ok_of_outcome h
      exact ih (hfield.next hgoes) hready'

theorem grows (h : Reaches routine w r w' r') (hgrows : ∀ w, Grows (routine.next w)) :
    ∃ more, r'.steps = r.steps ++ more := by
  induction h with
  | refl => exact ⟨[], (List.append_nil _).symm⟩
  | @part w _ _ r _ _ h _ _ ih =>
      obtain ⟨first, hfirst⟩ := hgrows w r
      obtain ⟨more, hmore⟩ := ih
      rw [h] at hfirst
      exact ⟨first ++ more, by rw [hmore, hfirst, List.append_assoc]⟩

end Reaches

/-- Where a part records no step that changes the global bindings, they are the same afterwards. -/
def Routine.Records (routine : Routine stage p δ) : Prop :=
  ∀ w r w' r', outcome (routine.next w) r = (.ok w', r') → BindsNoGlobal r' →
    r'.state.globals = r.state.globals

/-! ## Runs of turns -/

/-- Either a run ends well, or some child cannot be given what it is owed; then the run fails or
binds global variables. -/
inductive Fares (owes : NodeId → Recording → Prop) (children : List NodeId) (m : Recorded α)
    (t : Recording) (good : α → Recording → Prop) : Prop
  | well {a : α} {u : Recording} (h : outcome m t = (.ok a, u)) (hgood : good a u) :
    Fares owes children m t good
  | badly (h : ∀ a u, outcome m t = (.ok a, u) → ¬ BindsNoGlobal u) {x : NodeId}
      (hx : x ∈ children) (howes : ∀ a, ¬ owes x a) : Fares owes children m t good

namespace Fares

variable {owes : NodeId → Recording → Prop} {children : List NodeId} {m : Recorded α}
  {good good' : α → Recording → Prop} {after : β → Recording → Prop}

/-- A run that ends without having bound a global variable has ended well. -/
theorem good_of_ok (h : Fares owes children m t good) {a : α}
    (hm : outcome m t = (.ok a, u)) (hquiet : BindsNoGlobal u) : good a u := by
  cases h with
  | well h hgood =>
      have hsame := h.symm.trans hm
      cases hsame
      exact hgood
  | badly h => exact absurd hquiet (h a u hm)

/-- When every child can be given what it is owed, the run ends well. -/
theorem exists_ok (h : Fares owes children m t good) (howes : ∀ x ∈ children, ∃ a, owes x a) :
    ∃ a u, outcome m t = (.ok a, u) ∧ good a u := by
  cases h with
  | well h hgood => exact ⟨_, _, h, hgood⟩
  | badly _ hx hnone =>
      obtain ⟨a, ha⟩ := howes _ hx
      exact absurd ha (hnone a)

/-- What is said of the end of a run may use how it came about. -/
theorem traced (h : Fares owes children m t good) :
    Fares owes children m t fun a u => good a u ∧ outcome m t = (.ok a, u) := by
  cases h with
  | well h hgood => exact .well h ⟨hgood, h⟩
  | badly h hx hnone => exact .badly h hx hnone

theorem mono (h : Fares owes children m t good) (himp : ∀ a u, good a u → good' a u) :
    Fares owes children m t good' := by
  cases h with
  | well h hgood => exact .well h (himp _ _ hgood)
  | badly h hx hnone => exact .badly h hx hnone

/-- Only what comes of the run counts. -/
theorem congr {m' : Recorded α} (h : Fares owes children m t good)
    (hsame : outcome m' t = outcome m t) : Fares owes children m' t good := by
  cases h with
  | well h hgood => exact .well (hsame.trans h) hgood
  | badly h hx hnone => exact .badly (fun a u hout => h a u (hsame.symm.trans hout)) hx hnone

theorem pure {a : α} (h : good a t) : Fares owes children (Pure.pure a) t good := .well rfl h

protected theorem bind {k : α → Recorded β} (hm : Fares owes children m t good)
    (hgrows : ∀ a, Grows (k a)) (hk : ∀ a u, good a u → Fares owes children (k a) u after) :
    Fares owes children (m >>= k) t after := by
  cases hm with
  | @well a u h hgood =>
      have hsame : outcome (m >>= k) t = outcome (k a) u := outcome_bind_ok h
      cases hk a u hgood with
      | well h' hgood' => exact .well (hsame.trans h') hgood'
      | badly h' hx hnone => exact .badly (fun b v hout => h' b v (hsame.symm.trans hout)) hx hnone
  | badly h hx hnone =>
      refine .badly (fun b v hout hquiet => ?_) hx hnone
      rw [outcome_bind] at hout
      rcases hm : outcome m t with ⟨stop | a, u⟩
      · rw [hm] at hout
        cases hout
      · rw [hm] at hout
        exact h a u hm (hquiet.earlier (hgrows a) hout)

/-- What is made of the result afterwards does not count. -/
theorem of_map {f : α → β} (h : Fares owes children (f <$> m) t after) :
    Fares owes children m t fun a u => after (f a) u := by
  cases h with
  | @well b u h hgood =>
      rw [outcome_map] at h
      rcases hm : outcome m t with ⟨stop | a, v⟩
      · rw [hm] at h
        cases h
      · rw [hm] at h
        cases h
        exact .well hm hgood
  | badly h hx hnone =>
      refine .badly (fun a u hout => ?_) hx hnone
      apply h (f a) u
      rw [outcome_map, hout]

end Fares

/-- The work on the children has come some way, and the children are owed what they have been owed
from the start. -/
structure Advanced (routine : Routine stage p δ) (start : Recording)
    (owes : NodeId → Recording → Prop) (t : Recording) (progress : NodeId → Progress δ)
    (blocks : NodeId → List NodeId) : Prop where
  siblings : ∃ owner, Siblings routine start t progress owner blocks
  owes_iff : ∀ x a, Completes routine (progress x).own (progress x).alone a ↔ owes x a

namespace Advanced

variable {owes : NodeId → Recording → Prop} {progress : NodeId → Progress δ}
  {blocks : NodeId → List NodeId}

theorem children_eq (h : Advanced routine start owes t progress blocks) :
    t.state.document.children p = (start.state.document.children p).flatMap blocks := by
  obtain ⟨owner, hsiblings⟩ := h.siblings
  exact hsiblings.children_eq

/-- Where the same has come of a child on its own, it has become the same. -/
theorem trees_eq {start' t' : Recording} {owes' : NodeId → Recording → Prop}
    {progress' : NodeId → Progress δ} {blocks' : NodeId → List NodeId}
    (h : Advanced routine start owes t progress blocks)
    (h' : Advanced routine start' owes' t' progress' blocks')
    (hchildren : start'.state.document.children p = start.state.document.children p)
    (hx : x ∈ start.state.document.children p)
    (halone : (progress' x).alone = (progress x).alone) :
    (blocks' x).map t'.state.document.tree = (blocks x).map t.state.document.tree := by
  obtain ⟨owner, hsiblings⟩ := h.siblings
  obtain ⟨owner', hsiblings'⟩ := h'.siblings
  obtain ⟨l, l', hsplit⟩ := List.append_of_mem hx
  obtain ⟨P, hsibling⟩ := hsiblings.each hsplit
  obtain ⟨P', hsibling'⟩ := hsiblings'.each (hchildren.trans hsplit)
  obtain ⟨nodes, hnodes, htrees⟩ := hsibling.trees_eq (hsiblings.blocks_eq hsplit)
  obtain ⟨nodes', hnodes', htrees'⟩ :=
    hsibling'.trees_eq (hsiblings'.blocks_eq (hchildren.trans hsplit))
  rw [halone, hnodes] at hnodes'
  obtain rfl : nodes = nodes' := by simpa using hnodes'
  rw [htrees, htrees', halone]

/-- The turn of one child. -/
theorem turn (h : Advanced routine start owes t progress blocks) (hrecords : routine.Records)
    (hx : x ∈ start.state.document.children p) :
    Fares owes (start.state.document.children p) (routine.next (progress x).here) t fun w u =>
      ∃ alone own nodes, Advanced routine start owes u
        (Function.update progress x ⟨alone, own, w⟩) (Function.update blocks x nodes) := by
  obtain ⟨owner, hsiblings⟩ := h.siblings
  obtain ⟨l, l', hchildren⟩ := List.append_of_mem hx
  obtain ⟨P, hsibling⟩ := hsiblings.each hchildren
  have hsame : t.state.globals = (progress x).alone.state.globals := hsibling.twins.globals
  have hnext := hsiblings.next hchildren
  -- Without its next part nothing comes of the child.
  have hnone : (∀ w a, outcome (routine.next (progress x).own) (progress x).alone = (.ok w, a) →
      a.state.globals ≠ (progress x).alone.state.globals) → ∀ a, ¬ owes x a := by
    intro hbad a howes
    obtain ⟨w, r', hpart, hglobals⟩ := ((h.owes_iff x a).mpr howes).exists_next
    exact hbad w r' hpart hglobals
  rcases halone : outcome (routine.next (progress x).own) (progress x).alone with ⟨stop | own, a⟩ <;>
    rcases hhere : outcome (routine.next (progress x).here) t with ⟨stop' | w, u⟩ <;>
    rw [halone, hhere] at hnext <;> cases hnext
  case error =>
    refine .badly (fun w u hout => ?_) hx (hnone fun w a hout => ?_)
    · cases hhere.symm.trans hout
    · cases halone.symm.trans hout
  case ok hnext =>
    obtain ⟨hglobals, hnext⟩ := hnext
    by_cases hkept : u.state.globals = t.state.globals
    · obtain ⟨owner', nodes, hsiblings'⟩ := hnext hkept
      refine .well hhere ⟨a, own, nodes, ⟨owner', hsiblings'⟩, fun y a' => ?_⟩
      by_cases hy : y = x
      · subst hy
        rw [Function.update_self, ← h.owes_iff y a']
        exact (completes_iff halone (by rw [← hglobals, hkept, hsame])).symm
      · rw [Function.update_of_ne hy]
        exact h.owes_iff y a'
    · refine .badly (fun w' u' hout hquiet => ?_) hx (hnone fun w' a' hout heq => ?_)
      · cases hhere.symm.trans hout
        exact hkept (hrecords _ _ _ _ hhere hquiet)
      · cases halone.symm.trans hout
        exact hkept (by rw [hglobals, heq, hsame])

/-- The turns of several children, one after the other. -/
theorem mapM [Nonempty β] {step : NodeId → Recorded β} {after : NodeId → β → δ} {xs : List NodeId}
    (h : Advanced routine start owes t progress blocks) (hrecords : routine.Records)
    (hgrows : ∀ x, Grows (step x)) (hnodup : xs.Nodup)
    (hxs : xs ⊆ start.state.document.children p)
    (hnext : ∀ x ∈ xs, routine.next (progress x).here = after x <$> step x) :
    Fares owes (start.state.document.children p) (xs.mapM step) t fun results u =>
      ∃ progress' blocks', Advanced routine start owes u progress' blocks' ∧
        (∀ y ∉ xs, progress' y = progress y ∧ blocks' y = blocks y) ∧
        ∃ result : NodeId → β, results = xs.map result ∧
          ∀ x ∈ xs, (progress' x).here = after x (result x) := by
  induction xs generalizing t progress blocks with
  | nil =>
      exact .pure ⟨progress, blocks, h, fun _ _ => ⟨rfl, rfl⟩, fun _ => Classical.arbitrary β, rfl,
        nofun⟩
  | cons x xs ih =>
      obtain ⟨hnot, hnodup⟩ := List.nodup_cons.mp hnodup
      obtain ⟨hx, hrest⟩ := List.cons_subset.mp hxs
      have hother : ∀ y ∈ xs, y ≠ x := fun y hy heq => hnot (heq ▸ hy)
      have hturn := h.turn hrecords hx
      rw [hnext x List.mem_cons_self] at hturn
      rw [List.mapM_cons]
      apply hturn.of_map.bind
      · intro b
        exact (Grows.mapM hgrows xs).andThen fun bs => grows_pure _
      rintro b v ⟨alone, own, nodes, hadvanced⟩
      have hnext' : ∀ y ∈ xs, routine.next
          (Function.update progress x ⟨alone, own, after x b⟩ y).here = after y <$> step y := by
        intro y hy
        rw [Function.update_of_ne (hother y hy)]
        exact hnext y (List.mem_cons_of_mem x hy)
      apply (ih hadvanced hnodup hrest hnext').bind fun bs => grows_pure _
      rintro bs u ⟨progress', blocks', hadvanced', hothers, result, rfl, hhere⟩
      refine .pure ⟨progress', blocks', hadvanced', fun y hy => ?_, Function.update result x b, ?_,
        List.forall_mem_cons.mpr ⟨?_, fun y hy => ?_⟩⟩
      · rw [List.mem_cons, not_or] at hy
        obtain ⟨hprogress, hblocks⟩ := hothers y hy.2
        rw [hprogress, hblocks, Function.update_of_ne hy.1, Function.update_of_ne hy.1]
        exact ⟨rfl, rfl⟩
      · rw [List.map_cons, Function.update_self]
        congr 1
        apply List.map_congr_left
        intro y hy
        rw [Function.update_of_ne (hother y hy)]
      · rw [(hothers x hnot).1, Function.update_self, Function.update_self]
      · rw [Function.update_of_ne (hother y hy)]
        exact hhere y hy

end Advanced

end Walk.Recorded

end PageTemplate
