/-! # Lists of pairs in key order

Tables whose contents are shown in the order of their keys are lists of pairs, sorted by key
and without a repeated key. Keys are compared by their characters, which is also the order of
their UTF-8 bytes. Reading is the library's `List.lookup`.
-/

namespace PageTemplate.Keyed

universe u

variable {α : Type u}

/-- Puts `value` under `key`: a present key keeps its place and loses its old value. -/
def insert (key : String) (value : α) : List (String × α) → List (String × α)
  | [] => [(key, value)]
  | (k, v) :: rest =>
    if key = k then (key, value) :: rest
    else if key < k then (key, value) :: (k, v) :: rest
    else (k, v) :: insert key value rest

/-- Puts `value` under `key` unless the key is present. -/
def insertNew (key : String) (value : α) (entries : List (String × α)) : List (String × α) :=
  if (entries.lookup key).isSome then entries else insert key value entries

/-- The table without `key`. -/
def erase (key : String) (entries : List (String × α)) : List (String × α) :=
  entries.filter fun entry => entry.1 ≠ key

/-- The table of the given pairs; of two pairs with one key the later one wins. -/
def ofList (pairs : List (String × α)) : List (String × α) :=
  pairs.foldl (fun entries (key, value) => insert key value entries) []

/-- All entries of both tables; where both have a key, the second table's value stays. -/
def merge (first second : List (String × α)) : List (String × α) :=
  second.foldl (fun entries (key, value) => insert key value entries) first

theorem lookup_insert (key name : String) (value : α) (entries : List (String × α)) :
    (insert key value entries).lookup name =
      if name = key then some value else entries.lookup name := by
  have hstep : ∀ (k : String) (v : α) (rest : List (String × α)),
      ((k, v) :: rest).lookup name = if name = k then some v else rest.lookup name := by
    intro k v rest
    rw [List.lookup_cons]
    by_cases h : name = k
    · simp [h]
    · simp [h, beq_eq_false_iff_ne.mpr h]
  induction entries with
  | nil => simp [insert, hstep]
  | cons entry rest ih =>
    obtain ⟨k, v⟩ := entry
    unfold insert
    split
    next hkey =>
      subst hkey
      by_cases h : name = key <;> simp [hstep, h]
    · split
      · simp [hstep]
      next hkey _ =>
        rw [hstep, hstep, ih]
        by_cases h : name = key
        · subst h
          simp [hkey]
        · simp [h]

end PageTemplate.Keyed
