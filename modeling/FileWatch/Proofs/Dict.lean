import FileWatch.Dict
import Mathlib.Data.List.Forall2
import Mathlib.Data.List.Pairwise

/-!
# Laws of finite maps

What a `Dict` says is said by `stored?`: the pair that stands under a key, in the spelling the key
first came in.  `find?` is its second half.  The two agree on everything but spelling, and spelling
is the one thing in which a map with `==` for its keys can surprise, so the laws below are proved
for `stored?` and read off for `find?`.

One law per operation, each an equation at an arbitrary key.  No proof outside this file looks at
the list of entries to learn what a lookup answers.
-/

namespace FileWatch

namespace Dict

variable {κ α : Type} [BEq κ]

/-- A map is its entries; that no key is stored twice adds nothing to tell maps apart by. -/
theorem ext_entries {d d' : Dict κ α} (h : d.entries = d'.entries) : d = d' := by
  cases d
  cases d'
  simp only at h
  subst h
  rfl

/-- The pair stored under a key, with the key as it was first spelled. -/
def stored? (d : Dict κ α) (k : κ) : Option (κ × α) := d.entries.find? fun e => e.1 == k

theorem find?_eq_map_stored? (d : Dict κ α) (k : κ) : d.find? k = (d.stored? k).map (·.2) := rfl

theorem contains_eq_isSome (d : Dict κ α) (k : κ) : d.contains k = (d.find? k).isSome := by
  rw [contains, find?, Option.isSome_map, List.isSome_find?]

@[simp] theorem stored?_empty (k : κ) : (empty : Dict κ α).stored? k = none := rfl

@[simp] theorem find?_empty (k : κ) : (empty : Dict κ α).find? k = none := rfl

/-! ## Lookups and entries -/

section Entries

variable [EquivBEq κ] {d : Dict κ α}

theorem beq_eq_of_beq {k k' : κ} (h : (k == k') = true) (l : κ) : (l == k) = (l == k') := by
  rw [Bool.eq_iff_iff]
  exact ⟨fun hk => BEq.trans hk h, fun hk => BEq.trans hk (BEq.symm h)⟩

theorem stored?_congr {k k' : κ} (h : (k == k') = true) : d.stored? k = d.stored? k' := by
  unfold stored?
  congr 1
  funext e
  exact beq_eq_of_beq h e.1

theorem find?_congr {k k' : κ} (h : (k == k') = true) : d.find? k = d.find? k' := by
  rw [find?_eq_map_stored?, find?_eq_map_stored?, stored?_congr h]

/-- Two entries whose keys are `==` are one entry. -/
theorem eq_of_mem_of_beq {e e' : κ × α} (he : e ∈ d.entries) (he' : e' ∈ d.entries)
    (h : (e.1 == e'.1) = true) : e = e' := by
  have hsymm : Std.Symm fun a b : κ × α => (a.1 == b.1) = false :=
    ⟨fun a b hab => by rw [BEq.comm]; exact hab⟩
  by_contra hne
  rw [d.distinct.forall he he' hne] at h
  exact Bool.false_ne_true h

omit [EquivBEq κ] in
theorem mem_and_beq_of_stored? {k : κ} {e : κ × α} (h : d.stored? k = some e) :
    e ∈ d.entries ∧ (e.1 == k) = true :=
  ⟨List.mem_of_find?_eq_some h, by exact List.find?_some (p := fun e : κ × α => e.1 == k) h⟩

/-- A lookup answers with the one entry whose key is `==` to the one asked for. -/
theorem stored?_eq_some_iff {k : κ} {e : κ × α} :
    d.stored? k = some e ↔ e ∈ d.entries ∧ (e.1 == k) = true := by
  constructor
  · exact mem_and_beq_of_stored?
  · rintro ⟨hmem, hkey⟩
    cases h : d.stored? k with
    | none => exact absurd hkey (List.find?_eq_none.mp h e hmem)
    | some e' =>
      obtain ⟨hmem', hkey'⟩ := mem_and_beq_of_stored? h
      rw [eq_of_mem_of_beq hmem' hmem (BEq.trans hkey' (BEq.symm hkey))]

theorem mem_entries_iff {e : κ × α} : e ∈ d.entries ↔ d.stored? e.1 = some e := by
  rw [stored?_eq_some_iff]
  exact ⟨fun h => ⟨h, BEq.rfl⟩, fun h => h.1⟩

theorem find?_of_mem {e : κ × α} (h : e ∈ d.entries) : d.find? e.1 = some e.2 := by
  rw [find?_eq_map_stored?, mem_entries_iff.mp h]
  rfl

theorem find?_eq_some_iff {k : κ} {a : α} :
    d.find? k = some a ↔ ∃ k', (k', a) ∈ d.entries ∧ (k' == k) = true := by
  rw [find?_eq_map_stored?, Option.map_eq_some_iff]
  constructor
  · rintro ⟨⟨k', a'⟩, h, rfl⟩
    exact ⟨k', stored?_eq_some_iff.mp h⟩
  · rintro ⟨k', h⟩
    exact ⟨(k', a), stored?_eq_some_iff.mpr h, rfl⟩

/-- Of pairs with distinct keys at most one has a given key: the one that a search finds. -/
theorem filter_key_eq_find? {l : List (κ × α)}
    (distinct : l.Pairwise fun a b => (a.1 == b.1) = false) (k : κ) :
    l.filter (fun e => e.1 == k) = (l.find? fun e => e.1 == k).toList := by
  induction l with
  | nil => rfl
  | cons e rest ih =>
    obtain ⟨hhead, htail⟩ := List.pairwise_cons.mp distinct
    cases hk : e.1 == k with
    | false =>
      rw [List.filter_cons_of_neg (by rw [hk]; exact Bool.false_ne_true),
        List.find?_cons_of_neg (by rw [hk]; exact Bool.false_ne_true), ih htail]
    | true =>
      rw [List.filter_cons_of_pos (by exact hk), List.find?_cons_of_pos (by exact hk)]
      have hnone : rest.filter (fun e => e.1 == k) = [] := by
        rw [List.filter_eq_nil_iff]
        intro e' he' hk'
        exact Bool.eq_false_iff.mp (hhead e' he') (BEq.trans hk (BEq.symm hk'))
      rw [hnone]
      rfl

end Entries

/-! ## One law per operation -/

section Operations

variable [EquivBEq κ] (d : Dict κ α)

theorem stored?_insert (k k' : κ) (a : α) :
    (d.insert k a).stored? k' =
      if k == k' then some (((d.stored? k).map (·.1)).getD k, a) else d.stored? k' := by
  have hnone : d.contains k = false → d.stored? k = none := by
    intro h
    rw [contains_eq_isSome, find?_eq_map_stored?] at h
    simpa using h
  by_cases hk : (k == k') = true
  · rw [if_pos hk, stored?_congr (d := d.insert k a) (BEq.symm hk)]
    by_cases hc : d.contains k
    · -- The key keeps its place, and with it its spelling.
      obtain ⟨e, he⟩ : ∃ e, d.stored? k = some e := by
        rw [contains_eq_isSome, find?_eq_map_stored?, Option.isSome_map] at hc
        exact Option.isSome_iff_exists.mp hc
      obtain ⟨hmem, hkey⟩ := stored?_eq_some_iff.mp he
      rw [he, stored?_eq_some_iff]
      refine ⟨?_, hkey⟩
      simp only [insert, hc, dif_pos]
      exact List.mem_map.mpr ⟨e, hmem, by simp [hkey]⟩
    · simp only [Bool.not_eq_true] at hc
      rw [hnone hc, stored?_eq_some_iff]
      simp [insert, hc]
  · rw [if_neg hk]
    have hne : ∀ e : κ × α, (e.1 == k') = true → (e.1 == k) = false := by
      intro e he
      rw [Bool.eq_false_iff]
      exact fun h => hk (BEq.trans (BEq.symm h) he)
    by_cases hc : d.contains k
    · simp only [stored?, insert, hc, dif_pos, List.find?_map]
      have hfun : ((fun e : κ × α => e.1 == k') ∘ fun e => if e.1 == k then (e.1, a) else e)
          = fun e => e.1 == k' := by
        funext e
        simp only [Function.comp_apply]
        split <;> rfl
      rw [hfun]
      cases hf : d.entries.find? fun e => e.1 == k' with
      | none => rfl
      | some e =>
        have := hne e (mem_and_beq_of_stored? hf).2
        simp [this]
    · simp only [Bool.not_eq_true] at hc
      have hkf : (k == k') = false := by simpa using hk
      simp [stored?, insert, hc, List.find?_append, hkf]

theorem find?_insert (k k' : κ) (a : α) :
    (d.insert k a).find? k' = if k == k' then some a else d.find? k' := by
  rw [find?_eq_map_stored?, stored?_insert]
  split <;> rfl

theorem stored?_erase (k k' : κ) :
    (d.erase k).stored? k' = if k == k' then none else d.stored? k' := by
  simp only [stored?, erase, List.find?_filter]
  split
  · rename_i hk
    rw [List.find?_eq_none]
    intro e _
    simp [beq_eq_of_beq hk e.1]
  · rename_i hk
    congr 1
    funext e
    by_cases he : (e.1 == k') = true
    · have : (e.1 == k) = false := by
        rw [Bool.eq_false_iff]
        exact fun h => hk (BEq.trans (BEq.symm h) he)
      simp [this, he]
    · simp [he]

theorem find?_erase (k k' : κ) :
    (d.erase k).find? k' = if k == k' then none else d.find? k' := by
  rw [find?_eq_map_stored?, stored?_erase]
  split <;> rfl

/-- A filter keeps or loses the one pair a lookup answers with; no other pair has that key. -/
theorem stored?_filter (keep : κ → α → Bool) (k : κ) :
    (d.filter keep).stored? k = (d.stored? k).filter fun e => keep e.1 e.2 := by
  cases h : d.stored? k with
  | none =>
    have hnone := List.find?_eq_none.mp h
    rw [Option.filter_none]
    exact List.find?_eq_none.mpr fun e he => hnone e (List.mem_filter.mp he).1
  | some e =>
    obtain ⟨hmem, hkey⟩ := stored?_eq_some_iff.mp h
    cases hkeep : keep e.1 e.2 with
    | true =>
      rw [Option.filter_some_pos (by exact hkeep), stored?_eq_some_iff]
      exact ⟨List.mem_filter.mpr ⟨hmem, hkeep⟩, hkey⟩
    | false =>
      rw [Option.filter_some_neg (by exact hkeep)]
      refine List.find?_eq_none.mpr fun e' he' hkey' => ?_
      obtain ⟨hmem', hkeep'⟩ := List.mem_filter.mp he'
      rw [eq_of_mem_of_beq hmem' hmem (BEq.trans hkey' (BEq.symm hkey)), hkeep] at hkeep'
      exact Bool.false_ne_true hkeep'

theorem find?_filter_values (keep : α → Bool) (k : κ) :
    (d.filter fun _ a => keep a).find? k = (d.find? k).filter keep := by
  rw [find?_eq_map_stored?, stored?_filter, find?_eq_map_stored?]
  cases d.stored? k with
  | none => rfl
  | some e => cases h : keep e.2 <;> simp [Option.filter_some, h]

/-- Where keys that are `==` are equal, the filter may look at the key asked for. -/
theorem find?_filter {κ : Type} [BEq κ] [LawfulBEq κ] (d : Dict κ α) (keep : κ → α → Bool)
    (k : κ) : (d.filter keep).find? k = (d.find? k).filter (keep k) := by
  rw [find?_eq_map_stored?, stored?_filter, find?_eq_map_stored?]
  cases h : d.stored? k with
  | none => rfl
  | some e =>
    have hkey : e.1 = k := eq_of_beq (mem_and_beq_of_stored? h).2
    cases hkeep : keep k e.2 <;> simp [Option.filter_some, hkey, hkeep]

/-- To store a value and drop some of the others, but not what was stored under the same key. -/
theorem find?_insert_filter (keep : α → Bool) (k k' : κ) (a : α) :
    ((d.filter fun l v => l == k || keep v).insert k a).find? k' =
      if k == k' then some a else (d.find? k').filter keep := by
  rw [find?_insert]
  split
  · rfl
  · rename_i hkk
    rw [find?_eq_map_stored?, stored?_filter, find?_eq_map_stored?]
    cases hst : d.stored? k' with
    | none => rfl
    | some e =>
      have hne : (e.1 == k) = false := by
        rw [Bool.eq_false_iff]
        exact fun h => hkk (BEq.trans (BEq.symm h) (mem_and_beq_of_stored? hst).2)
      cases hkeep : keep e.2 <;> simp [Option.filter_some, hne, hkeep]

end Operations

/-! ## Renaming keys

A map may be read with other names for its keys, as long as the names are told apart as the keys
are.  Every operation commutes with that, entry by entry. -/

section Rename

variable {μ : Type} [BEq μ] {f : κ → μ} {d : Dict κ α} {d' : Dict μ α}

/-- The second map is the first with other names for its keys. -/
def Renamed (f : κ → μ) (d : Dict κ α) (d' : Dict μ α) : Prop :=
  d'.entries = d.entries.map fun e => (f e.1, e.2)

theorem Renamed.find?_eq (h : Renamed f d d') (hf : ∀ a b, (f a == f b) = (a == b)) (k : κ) :
    d'.find? (f k) = d.find? k := by
  unfold find?
  rw [h, List.find?_map, Option.map_map]
  simp only [Function.comp_def, hf]

theorem Renamed.insert (h : Renamed f d d') (hf : ∀ a b, (f a == f b) = (a == b)) (k : κ)
    (a : α) : Renamed f (d.insert k a) (d'.insert (f k) a) := by
  have hcontains : d'.contains (f k) = d.contains k := by
    rw [contains_eq_isSome, contains_eq_isSome, h.find?_eq hf]
  unfold Renamed Dict.insert
  by_cases hc : d.contains k = true
  · rw [dif_pos hc, dif_pos (hcontains.trans hc)]
    simp only [show d'.entries = _ from h, List.map_map]
    refine List.map_congr_left fun e _ => ?_
    simp only [Function.comp_apply, hf]
    split <;> rfl
  · rw [dif_neg hc, dif_neg (by rw [hcontains]; exact hc)]
    simp only [show d'.entries = _ from h, List.map_append, List.map_cons, List.map_nil]

theorem Renamed.filter (h : Renamed f d d') {keep : κ → α → Bool} {keep' : μ → α → Bool}
    (hkeep : ∀ k a, keep' (f k) a = keep k a) :
    Renamed f (d.filter keep) (d'.filter keep') := by
  unfold Renamed Dict.filter
  simp only [show d'.entries = _ from h, List.filter_map]
  congr 1
  exact List.filter_congr fun e _ => hkeep e.1 e.2

end Rename

/-! ## Related values

Two maps may have the same keys in the same order, and values that belong together. -/

section Alike

variable {β : Type} {R : α → β → Prop} {d : Dict κ α} {d' : Dict κ β}

/-- The two maps have the same keys in the same order, and related values. -/
def Alike (R : α → β → Prop) (d : Dict κ α) (d' : Dict κ β) : Prop :=
  List.Forall₂ (fun e e' => e.1 = e'.1 ∧ R e.2 e'.2) d.entries d'.entries

theorem alike_empty : Alike R (∅ : Dict κ α) (∅ : Dict κ β) := .nil

theorem Alike.mono {S : α → β → Prop} (h : Alike R d d')
    (hRS : ∀ e ∈ d.entries, ∀ b, R e.2 b → S e.2 b) : Alike S d d' := by
  unfold Alike at h ⊢
  generalize d.entries = l at h hRS
  generalize d'.entries = l' at h
  induction h with
  | nil => exact .nil
  | @cons e e' _ _ he _ ih =>
    refine .cons (he.imp_right (hRS e List.mem_cons_self _)) (ih fun x hx => ?_)
    exact hRS x (List.mem_cons_of_mem _ hx)

theorem Alike.keys_eq (h : Alike R d d') : d.keys = d'.keys := by
  unfold Alike at h
  unfold keys
  generalize d.entries = l at h
  generalize d'.entries = l' at h
  induction h with
  | nil => rfl
  | cons he _ ih => rw [List.map_cons, List.map_cons, he.1, ih]

theorem Alike.find? (h : Alike R d d') (k : κ) : Option.Rel R (d.find? k) (d'.find? k) := by
  unfold Alike at h
  unfold Dict.find?
  generalize d.entries = l at h
  generalize d'.entries = l' at h
  induction h with
  | nil => exact .none
  | @cons e e' _ _ he _ ih =>
    rw [List.find?_cons, List.find?_cons, he.1]
    cases e'.1 == k with
    | true => exact .some he.2
    | false => exact ih

theorem Alike.contains_eq (h : Alike R d d') (k : κ) : d.contains k = d'.contains k := by
  have hfind := h.find? k
  rw [contains_eq_isSome, contains_eq_isSome]
  generalize d.find? k = o at hfind
  generalize d'.find? k = o' at hfind
  cases hfind <;> rfl

theorem Alike.filter (h : Alike R d d') {keep : κ → α → Bool} {keep' : κ → β → Bool}
    (hkeep : ∀ k a b, R a b → keep k a = keep' k b) :
    Alike R (d.filter keep) (d'.filter keep') := by
  refine List.rel_filter (fun e e' he => ?_) h
  show keep e.1 e.2 = true ↔ keep' e'.1 e'.2 = true
  rw [he.1, hkeep e'.1 e.2 e'.2 he.2]

theorem Alike.insert (h : Alike R d d') (k : κ) {a : α} {b : β} (hab : R a b) :
    Alike R (d.insert k a) (d'.insert k b) := by
  unfold Dict.insert Alike
  by_cases hc : d.contains k = true
  · rw [dif_pos hc, dif_pos (h.contains_eq k ▸ hc)]
    simp only [List.forall₂_map_left_iff, List.forall₂_map_right_iff]
    refine h.imp fun e e' he => ?_
    rw [he.1]
    split
    · exact ⟨rfl, hab⟩
    · exact he
  · rw [dif_neg hc, dif_neg (h.contains_eq k ▸ hc)]
    exact List.rel_append h (.cons ⟨rfl, hab⟩ .nil)

end Alike

end Dict

end FileWatch
