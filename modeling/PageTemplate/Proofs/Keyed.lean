import Mathlib.Data.List.Forall2
import Mathlib.Data.String.Basic
import PageTemplate.Keyed

/-! # What tables hold

An operation on a table brings in no entry but the ones it is given. What is done alike to tables
with the same keys and related values gives such tables again.
-/

namespace PageTemplate.Keyed

variable {α : Type} {key : String} {value : α} {entries entries' : List (String × α)}
  {entry : String × α}

/-- Another key is not looked up at the head of a table. -/
theorem lookup_cons_of_ne {κ β : Type} [BEq κ] [LawfulBEq κ] {k other : κ} {b : β}
    {table : List (κ × β)} (hne : k ≠ other) :
    ((other, b) :: table).lookup k = table.lookup k := by
  rw [List.lookup_cons, beq_eq_false_iff_ne.mpr hne]

theorem mem_of_lookup (h : entries.lookup key = some value) : (key, value) ∈ entries := by
  obtain ⟨front, back, rfl, -⟩ := List.lookup_eq_some_iff.mp h
  exact List.mem_append_right _ List.mem_cons_self

theorem mem_insert (h : entry ∈ insert key value entries) :
    entry = (key, value) ∨ entry ∈ entries := by
  induction entries with
  | nil => simpa [insert] using h
  | cons first rest ih =>
      obtain ⟨k, v⟩ := first
      unfold insert at h
      split at h
      · exact (List.mem_cons.mp h).imp_right (List.mem_cons_of_mem _)
      · split at h
        · exact List.mem_cons.mp h
        · rcases List.mem_cons.mp h with rfl | h
          · exact .inr List.mem_cons_self
          · exact (ih h).imp_right (List.mem_cons_of_mem _)

theorem mem_insertNew (h : entry ∈ insertNew key value entries) :
    entry = (key, value) ∨ entry ∈ entries := by
  unfold insertNew at h
  split at h
  · exact .inr h
  · exact mem_insert h

theorem mem_erase (h : entry ∈ erase key entries) : entry ∈ entries :=
  (List.mem_filter.mp h).1

theorem mem_merge (h : entry ∈ merge entries entries') : entry ∈ entries ∨ entry ∈ entries' := by
  unfold merge at h
  induction entries' generalizing entries with
  | nil => exact .inl h
  | cons first rest ih =>
      rw [List.foldl_cons] at h
      rcases ih h with h | h
      · rcases mem_insert h with rfl | h
        · exact .inr List.mem_cons_self
        · exact .inl h
      · exact .inr (List.mem_cons_of_mem _ h)

theorem mem_ofList {pairs : List (String × α)} (h : entry ∈ ofList pairs) : entry ∈ pairs := by
  have hmerge : entry ∈ merge [] pairs := h
  exact (mem_merge hmerge).resolve_left nofun

/-- A table stays in key order. -/
theorem pairwise_insert (h : (entries.map (·.1)).Pairwise (· < ·)) :
    ((insert key value entries).map (·.1)).Pairwise (· < ·) := by
  induction entries with
  | nil => exact List.pairwise_singleton _ _
  | cons first rest ih =>
      obtain ⟨k, v⟩ := first
      obtain ⟨hfirst, hrest⟩ := List.pairwise_cons.mp h
      unfold insert
      split
      next hkey =>
        subst hkey
        exact h
      next hne =>
        split
        next hlt =>
          refine List.pairwise_cons.mpr ⟨fun other hother => ?_, h⟩
          rcases List.mem_cons.mp hother with rfl | hother
          · exact hlt
          · exact lt_trans hlt (hfirst other hother)
        next hge =>
          refine List.pairwise_cons.mpr ⟨fun other hother => ?_, ih hrest⟩
          obtain ⟨entry, hentry, rfl⟩ := List.mem_map.mp hother
          rcases mem_insert hentry with rfl | hentry
          · exact lt_of_le_of_ne (not_lt.mp hge) (Ne.symm hne)
          · exact hfirst _ (List.mem_map_of_mem hentry)

theorem isSome_lookup_iff : (entries.lookup key).isSome ↔ key ∈ entries.map (·.1) := by
  rw [List.lookup_isSome_iff, List.mem_map]
  exact exists_congr fun entry => and_congr_right fun _ => beq_iff_eq.trans eq_comm

/-! ## Tables that match -/

section Matches

variable {β : Type} {R : α → β → Prop} {table : List (String × α)} {table' : List (String × β)}
  {value' : β}

/-- The tables have the same keys, and their values are related. -/
def Matches (R : α → β → Prop) : List (String × α) → List (String × β) → Prop :=
  List.Forall₂ fun entry entry' => entry.1 = entry'.1 ∧ R entry.2 entry'.2

theorem Matches.imp {S : α → β → Prop} (h : Matches R table table')
    (himp : ∀ entry ∈ table, ∀ entry' ∈ table', R entry.2 entry'.2 → S entry.2 entry'.2) :
    Matches S table table' := by
  induction h with
  | nil => exact .nil
  | cons hhead _ ih =>
      refine .cons ⟨hhead.1, himp _ List.mem_cons_self _ List.mem_cons_self hhead.2⟩ ?_
      exact ih fun entry hentry entry' hentry' =>
        himp entry (List.mem_cons_of_mem _ hentry) entry' (List.mem_cons_of_mem _ hentry')

theorem Matches.lookup (h : Matches R table table') (key : String) :
    Option.Rel R (table.lookup key) (table'.lookup key) := by
  induction h with
  | nil => exact .none
  | @cons entry entry' _ _ hhead _ ih =>
      obtain ⟨name, value⟩ := entry
      obtain ⟨_, value'⟩ := entry'
      obtain ⟨rfl, hvalue⟩ := hhead
      rw [List.lookup_cons, List.lookup_cons]
      cases key == name with
      | true => exact .some hvalue
      | false => exact ih

theorem Matches.insert (h : Matches R table table') (key : String) (hvalue : R value value') :
    Matches R (insert key value table) (insert key value' table') := by
  induction h with
  | nil => exact .cons ⟨rfl, hvalue⟩ .nil
  | @cons entry entry' _ _ hhead htail ih =>
      obtain ⟨name, _⟩ := entry
      obtain ⟨_, _⟩ := entry'
      obtain ⟨rfl, hold⟩ := hhead
      unfold Keyed.insert
      dsimp only
      split
      · exact .cons ⟨rfl, hvalue⟩ htail
      split
      · exact .cons ⟨rfl, hvalue⟩ (.cons ⟨rfl, hold⟩ htail)
      · exact .cons ⟨rfl, hold⟩ ih

theorem Matches.insertNew (h : Matches R table table') (key : String) (hvalue : R value value') :
    Matches R (insertNew key value table) (insertNew key value' table') := by
  have hpresent := h.lookup key
  unfold Keyed.insertNew
  generalize table.lookup key = found, table'.lookup key = found' at hpresent
  cases hpresent with
  | none => exact h.insert key hvalue
  | some => exact h

theorem Matches.erase (h : Matches R table table') (key : String) :
    Matches R (erase key table) (erase key table') := by
  refine List.rel_filter (fun entry entry' hentry => ?_) h
  simp only [hentry.1]

theorem Matches.merge {more : List (String × α)} {more' : List (String × β)}
    (h : Matches R table table') (hmore : Matches R more more') :
    Matches R (merge table more) (merge table' more') := by
  unfold Keyed.merge
  induction hmore generalizing table table' with
  | nil => exact h
  | @cons entry entry' _ _ hhead _ ih =>
      obtain ⟨name, value⟩ := entry
      obtain ⟨_, value'⟩ := entry'
      obtain ⟨rfl, hvalue⟩ := hhead
      exact ih (h.insert name hvalue)

end Matches

end PageTemplate.Keyed
