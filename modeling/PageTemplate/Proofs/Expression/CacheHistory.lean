import Mathlib.Data.List.Dedup
import Mathlib.Data.List.DropRight
import Mathlib.Data.List.Induction
import PageTemplate.Proofs.Expression.Caching
import PageTemplate.Proofs.Keyed

/-! # The history of a cache

A cache is asked for expressions, asked for its size and cleared, in any order. To the one who asks,
it shows only in the identity of what is given: every text is answered as if it were read anew, and
a text gives the same object again until the cache is cleared.
-/

namespace PageTemplate

/-- A call of a cache. -/
inductive CacheCall where
  | get (text : String)
  | size
  | clear
deriving DecidableEq

/-- The text that the call gets an expression for. -/
def CacheCall.fetched? : CacheCall → Option String
  | get text => if (Expression.parse text).toBool then some text else none
  | _ => none

/-- The texts for which expressions were got since the cache was last cleared. -/
def fetched (calls : List CacheCall) : List String :=
  (calls.rtakeWhile (· ≠ .clear)).filterMap (·.fetched?)

namespace ExpressionCache

/-- The cache after a call. -/
def take (cache : ExpressionCache) : CacheCall → ExpressionCache
  | .get text => (cache.get text).2
  | .size => cache
  | .clear => cache.clear

/-- The cache after calls, one after the other. -/
def takeAll (cache : ExpressionCache) (calls : List CacheCall) : ExpressionCache :=
  calls.foldl take cache

/-- The texts whose expressions are kept. -/
def texts (cache : ExpressionCache) : List String := cache.entries.map (·.1)

/-- Texts are kept once, and numbers are given in the order in which entries were made. -/
structure IsOrderly (cache : ExpressionCache) : Prop where
  nodup_texts : cache.texts.Nodup
  serials : (cache.nextSerial :: cache.entries.map (·.2.serial)).Pairwise (· > ·)

variable {cache : ExpressionCache} {text other : String} {entry : CachedExpression}

/-! ## One call -/

/-- An expression is given that was kept, or one that is read now and is kept from now on. -/
theorem get_cases (cache : ExpressionCache) (text : String) :
    (∃ entry, cache.entries.lookup text = some entry ∧ cache.get text = (.ok entry, cache)) ∨
      cache.entries.lookup text = none ∧
        ((∃ error, Expression.parse text = .error error ∧
          cache.get text = (.error error, cache)) ∨
        ∃ expression, Expression.parse text = .ok expression ∧ cache.get text =
          (.ok ⟨cache.nextSerial, expression⟩,
            ⟨(text, ⟨cache.nextSerial, expression⟩) :: cache.entries, cache.nextSerial + 1⟩)) := by
  unfold get
  cases hlookup : cache.entries.lookup text with
  | some entry => exact .inl ⟨entry, rfl, rfl⟩
  | none =>
      refine .inr ⟨rfl, ?_⟩
      cases hparse : Expression.parse text with
      | error error => exact .inl ⟨error, rfl, rfl⟩
      | ok expression => exact .inr ⟨expression, rfl, rfl⟩

theorem lookup_eq_none_iff : cache.entries.lookup text = none ↔ text ∉ cache.texts := by
  simp only [texts, List.lookup_eq_none_iff, List.mem_map, not_exists, not_and, bne_iff_ne]
  exact forall₂_congr fun _ _ => ne_comm

theorem IsOrderly.get (h : cache.IsOrderly) (text : String) : (cache.get text).2.IsOrderly := by
  rcases cache.get_cases text with
    ⟨_, -, hget⟩ | ⟨hnone, ⟨_, -, hget⟩ | ⟨expression, -, hget⟩⟩
  · rwa [hget]
  · rwa [hget]
  · rw [hget]
    refine ⟨List.nodup_cons.mpr ⟨lookup_eq_none_iff.mp hnone, h.nodup_texts⟩, ?_⟩
    refine List.pairwise_cons.mpr ⟨fun serial hserial => ?_, h.serials⟩
    rcases List.mem_cons.mp hserial with rfl | hserial
    · exact Nat.lt_succ_self _
    · exact Nat.lt_succ_of_lt (List.rel_of_pairwise_cons h.serials hserial)

theorem IsOrderly.take (h : cache.IsOrderly) (call : CacheCall) : (cache.take call).IsOrderly := by
  cases call with
  | get text => exact h.get text
  | size => exact h
  | clear => exact ⟨List.nodup_nil, List.pairwise_singleton _ _⟩

theorem IsFaithful.take (h : cache.IsFaithful) (call : CacheCall) :
    (cache.take call).IsFaithful := by
  cases call with
  | get text => exact (h.get text).2
  | size => exact h
  | clear => exact isFaithful_empty

/-- With a faithful cache, what is kept is kept on, and a text that can be read comes to be kept. -/
theorem IsFaithful.mem_texts_get (h : cache.IsFaithful) :
    other ∈ (cache.get text).2.texts ↔
      other ∈ cache.texts ∨ (CacheCall.get text).fetched? = some other := by
  rw [CacheCall.fetched?]
  rcases cache.get_cases text with
    ⟨entry, hentry, hget⟩ | ⟨-, ⟨error, hparse, hget⟩ | ⟨expression, hparse, hget⟩⟩
  · have hkept : text ∈ cache.texts := by
      by_contra hnot
      rw [lookup_eq_none_iff.mpr hnot] at hentry
      cases hentry
    rw [hget, h text entry hentry]
    simp only [Except.toBool, if_true, Option.some.injEq]
    exact ⟨.inl, fun hor => hor.elim id fun heq => heq ▸ hkept⟩
  · rw [hget, hparse]
    simp [Except.toBool]
  · rw [hget, hparse]
    simp [Except.toBool, texts, eq_comm, or_comm]

/-! ## Calls one after the other -/

theorem IsOrderly.takeAll (h : cache.IsOrderly) (calls : List CacheCall) :
    (cache.takeAll calls).IsOrderly := by
  induction calls generalizing cache with
  | nil => exact h
  | cons call calls ih => exact ih (h.take call)

theorem IsFaithful.takeAll (h : cache.IsFaithful) (calls : List CacheCall) :
    (cache.takeAll calls).IsFaithful := by
  induction calls generalizing cache with
  | nil => exact h
  | cons call calls ih => exact ih (h.take call)

theorem isOrderly_empty : ({} : ExpressionCache).IsOrderly :=
  ⟨List.nodup_nil, List.pairwise_singleton _ _⟩

theorem takeAll_append (calls calls' : List CacheCall) :
    cache.takeAll (calls ++ calls') = (cache.takeAll calls).takeAll calls' :=
  List.foldl_append ..

/-- The texts that are kept are those that were got since the cache was last cleared. -/
theorem mem_texts_takeAll (calls : List CacheCall) :
    text ∈ (({} : ExpressionCache).takeAll calls).texts ↔ text ∈ fetched calls := by
  induction calls using List.reverseRecOn with
  | nil => exact Iff.rfl
  | append_singleton calls call ih =>
      rw [takeAll_append, fetched, List.rtakeWhile_concat]
      have hrest : (calls.rtakeWhile (· ≠ .clear) ++ [call]).filterMap (·.fetched?) =
          fetched calls ++ call.fetched?.toList := by
        rw [List.filterMap_append]
        cases hcall : call.fetched? <;> simp [fetched, hcall]
      cases call with
      | get other =>
          have hfaithful := isFaithful_empty.takeAll calls
          rw [if_pos (by simp), hrest, List.mem_append, Option.mem_toList, ← ih]
          exact hfaithful.mem_texts_get
      | size =>
          rw [if_pos (by simp), hrest]
          exact ih.trans (by simp [CacheCall.fetched?])
      | clear =>
          rw [if_neg (by simp)]
          exact Iff.rfl

/-- What is kept stays kept until the cache is cleared. -/
theorem lookup_takeAll (hkept : cache.entries.lookup text = some entry) {calls : List CacheCall}
    (hcalls : .clear ∉ calls) : (cache.takeAll calls).entries.lookup text = some entry := by
  induction calls generalizing cache with
  | nil => exact hkept
  | cons call calls ih =>
      obtain ⟨hcall, hrest⟩ := not_or.mp (List.mem_cons.not.mp hcalls)
      apply ih _ hrest
      cases call with
      | get other =>
          rcases cache.get_cases other with
            ⟨_, -, hget⟩ | ⟨hnone, ⟨_, -, hget⟩ | ⟨expression, -, hget⟩⟩
          · rwa [take, hget]
          · rwa [take, hget]
          · have hne : text ≠ other := by
              rintro rfl
              rw [hnone] at hkept
              cases hkept
            rw [take, hget, Keyed.lookup_cons_of_ne hne, hkept]
      | size => exact hkept
      | clear => exact absurd rfl hcall

/-- What is given is kept under its text. -/
theorem lookup_get (h : (cache.get text).1 = .ok entry) :
    (cache.get text).2.entries.lookup text = some entry := by
  rcases cache.get_cases text with
    ⟨_, hentry, hget⟩ | ⟨-, ⟨_, -, hget⟩ | ⟨expression, -, hget⟩⟩
  · rw [hget] at h ⊢
    exact hentry.trans (congrArg some (Except.ok.inj h))
  · rw [hget] at h
    cases h
  · rw [hget] at h ⊢
    rw [List.lookup_cons_self, Except.ok.inj h]

theorem nextSerial_le_takeAll (calls : List CacheCall) :
    cache.nextSerial ≤ (cache.takeAll calls).nextSerial := by
  induction calls generalizing cache with
  | nil => exact Nat.le_refl _
  | cons call calls ih =>
      refine Nat.le_trans ?_ ih
      cases call with
      | get text =>
          rcases cache.get_cases text with ⟨_, -, hget⟩ | ⟨-, ⟨_, -, hget⟩ | ⟨_, -, hget⟩⟩
          · rw [take, hget]
          · rw [take, hget]
          · rw [take, hget]
            exact Nat.le_succ _
      | size => exact Nat.le_refl _
      | clear => exact Nat.le_refl _

/-- Entries that are made later have later numbers. -/
theorem le_serial_takeAll {least : Nat} (hnext : least ≤ cache.nextSerial)
    (hentries : ∀ pair ∈ cache.entries, least ≤ pair.2.serial) (calls : List CacheCall) :
    ∀ pair ∈ (cache.takeAll calls).entries, least ≤ pair.2.serial := by
  induction calls generalizing cache with
  | nil => exact hentries
  | cons call calls ih =>
      cases call with
      | get text =>
          rcases cache.get_cases text with
            ⟨_, -, hget⟩ | ⟨-, ⟨_, -, hget⟩ | ⟨expression, -, hget⟩⟩
          · exact ih (by rwa [take, hget]) (by rwa [take, hget])
          · exact ih (by rwa [take, hget]) (by rwa [take, hget])
          · apply ih
            · rw [take, hget]
              exact Nat.le_succ_of_le hnext
            · rw [take, hget]
              exact List.forall_mem_cons.mpr ⟨hnext, hentries⟩
      | size => exact ih hnext hentries
      | clear => exact ih hnext nofun

theorem le_serial_clear (calls : List CacheCall) :
    ∀ pair ∈ (cache.clear.takeAll calls).entries, cache.nextSerial ≤ pair.2.serial := by
  have hnext : cache.nextSerial ≤ cache.clear.nextSerial := Nat.le_refl _
  exact le_serial_takeAll hnext (by simp [ExpressionCache.clear]) calls

/-- Different texts are kept with different numbers. -/
theorem IsOrderly.eq_of_serial (h : cache.IsOrderly) {pair pair' : String × CachedExpression}
    (hpair : pair ∈ cache.entries) (hpair' : pair' ∈ cache.entries)
    (hserial : pair'.2.serial = pair.2.serial) : pair' = pair := by
  have hnodup : (cache.entries.map (·.2.serial)).Nodup :=
    (List.pairwise_cons.mp h.serials).2.imp fun hgt => Nat.ne_of_gt hgt
  exact List.inj_on_of_nodup_map hnodup hpair' hpair hserial

/-- Of an entry that is kept, and one that is kept under a text that was asked for at the end. -/
theorem IsOrderly.serial_eq_iff (h : cache.IsOrderly)
    (hentry : cache.entries.lookup text = some entry) {between : List CacheCall}
    (h' : (cache.takeAll (between ++ [.get other])).IsOrderly) {entry' : CachedExpression}
    (hentry' : (cache.takeAll (between ++ [.get other])).entries.lookup other = some entry') :
    entry'.serial = entry.serial ↔ other = text ∧ .clear ∉ between := by
  have hstays : .clear ∉ between →
      (cache.takeAll (between ++ [.get other])).entries.lookup text = some entry :=
    fun hclear => lookup_takeAll hentry (by simpa using hclear)
  constructor
  · intro hserial
    have hclear : .clear ∉ between := by
      intro hmem
      obtain ⟨calls, calls', rfl⟩ := List.append_of_mem hmem
      -- What is made behind the clearing is numbered behind everything made before.
      have hold : entry.serial < cache.nextSerial :=
        List.rel_of_pairwise_cons h.serials (List.mem_map_of_mem (Keyed.mem_of_lookup hentry))
      have hnew : cache.nextSerial ≤ entry'.serial := by
        rw [List.append_assoc, takeAll_append] at hentry'
        exact Nat.le_trans (nextSerial_le_takeAll calls)
          (le_serial_clear (calls' ++ [.get other]) _ (Keyed.mem_of_lookup hentry'))
      omega
    refine ⟨?_, hclear⟩
    have hsame := h'.eq_of_serial (Keyed.mem_of_lookup (hstays hclear))
      (Keyed.mem_of_lookup hentry') hserial
    exact congrArg Prod.fst hsame
  · rintro ⟨rfl, hclear⟩
    rw [hstays hclear] at hentry'
    rw [Option.some.inj hentry']

/-- Every text is answered as it is read, whatever was asked before. The size is the number of
different texts that expressions were got for since the cache was last cleared, and a text that is
no expression leaves the cache as it is. Two answers are one object exactly when they are given for
one text and the cache was not cleared in between. -/
theorem cache_follows_history (calls : List CacheCall) :
    let cache := ({} : ExpressionCache).takeAll calls
    (∀ text, (cache.get text).1.map (·.expression) = Expression.parse text) ∧
      cache.size = (fetched calls).dedup.length ∧
      (∀ text error, Expression.parse text = .error error → (cache.get text).2 = cache) ∧
      ∀ before text between entry text' entry', calls = before ++ .get text :: between →
        ((({} : ExpressionCache).takeAll before).get text).1 = .ok entry →
        (cache.get text').1 = .ok entry' →
        (entry'.serial = entry.serial ↔ text' = text ∧ .clear ∉ between) := by
  intro cache
  have hfaithful : cache.IsFaithful := isFaithful_empty.takeAll calls
  have horderly : cache.IsOrderly := isOrderly_empty.takeAll calls
  refine ⟨fun text => (hfaithful.get text).1, ?_, fun text error hparse => ?_, ?_⟩
  · have hperm : cache.texts.Perm (fetched calls).dedup := by
      apply (List.perm_ext_iff_of_nodup horderly.nodup_texts (List.nodup_dedup _)).mpr
      intro text
      rw [List.mem_dedup, mem_texts_takeAll]
    rw [← hperm.length_eq, texts, List.length_map, size]
  · rcases cache.get_cases text with ⟨entry, hentry, -⟩ | ⟨-, ⟨_, -, hget⟩ | ⟨_, hread, -⟩⟩
    · rw [hfaithful text entry hentry] at hparse
      cases hparse
    · rw [hget]
    · rw [hread] at hparse
      cases hparse
  · rintro before text between entry text' entry' rfl hfirst hlast
    have hgiven := lookup_get hfirst
    have hmade := (isOrderly_empty.takeAll before).get text
    have hgiven' := lookup_get hlast
    have horderly' := horderly.get text'
    have hmiddle : cache = ((({} : ExpressionCache).takeAll before).get text).2.takeAll between :=
      takeAll_append before (.get text :: between)
    have hrun : (cache.get text').2 =
        ((({} : ExpressionCache).takeAll before).get text).2.takeAll (between ++ [.get text']) := by
      rw [takeAll_append, ← hmiddle]
      rfl
    rw [hrun] at hgiven' horderly'
    exact hmade.serial_eq_iff hgiven horderly' hgiven'

/-- A text is got, the cache is cleared, and the text is got again before another one fails. -/
def clearingCalls : List CacheCall :=
  [.get "here/items", .clear, .get "here/items", .get "a//b", .size]

/-- The text has the object that it was given after the clearing, not the one before. -/
theorem cache_follows_history_cleared :
    let cache := ({} : ExpressionCache).takeAll clearingCalls
    cache.size = 1 ∧ (cache.get "a//b").2 = cache ∧ ∃ first second third,
      (({} : ExpressionCache).get "here/items").1 = .ok first ∧
        ((({} : ExpressionCache).takeAll (clearingCalls.take 2)).get "here/items").1 = .ok second ∧
        (cache.get "here/items").1 = .ok third ∧
        third.serial = second.serial ∧ third.serial ≠ first.serial := by
  intro cache
  obtain ⟨-, hsize, hfailed, hsame⟩ := cache_follows_history clearingCalls
  have hfetched : (fetched clearingCalls).dedup.length = 1 := by decide +kernel
  obtain ⟨fault, hfault⟩ : ∃ fault, Expression.parse "a//b" = .error fault :=
    exists_error_of_toOption (by decide +kernel)
  obtain ⟨expression, hread⟩ : ∃ expression, Expression.parse "here/items" = .ok expression := by
    obtain ⟨expression, hread⟩ := Option.isSome_iff_exists.mp
      (show (Expression.parse "here/items").toOption.isSome by decide +kernel)
    exact ⟨expression, eq_ok_of_toOption hread⟩
  have hgives : ∀ calls : List CacheCall, ∃ entry,
      ((({} : ExpressionCache).takeAll calls).get "here/items").1 = .ok entry := by
    intro calls
    have hanswer := (cache_follows_history calls).1 "here/items"
    obtain ⟨entry, hentry, -⟩ := exists_ok_of_map (hanswer.trans hread)
    exact ⟨entry, hentry⟩
  obtain ⟨first, hfirst⟩ := hgives []
  obtain ⟨second, hsecond⟩ := hgives (clearingCalls.take 2)
  obtain ⟨third, hthird⟩ := hgives clearingCalls
  refine ⟨hsize.trans hfetched, hfailed _ _ hfault, first, second, third, hfirst, hsecond, hthird,
    ?_, fun heq => ?_⟩
  · exact (hsame (clearingCalls.take 2) _ _ _ _ _ rfl hsecond hthird).mpr ⟨rfl, by decide⟩
  · have hclear := ((hsame [] _ _ _ _ _ rfl hfirst hthird).mp heq).2
    exact absurd List.mem_cons_self hclear

end ExpressionCache

end PageTemplate
