/-!
# Finite maps that keep the first spelling of a key

The keys of this library are often *spellings*: `/a/` and `/a` are different byte strings that name
one path.  `Dict` is a finite map whose keys are told apart by `==`, which may be coarser than `=`.
When a value is stored under a key that is already there, the value changes and the spelling of
the key does not; the first spelling is the one a reader of the map sees.

The entries stand in the order in which their keys first came in.  Nothing outside this file may
depend on that order: whoever shows the keys sorts them first.

No two keys of a `Dict` are `==`.  That is part of the type, so `size` counts keys and not
spellings.
-/

namespace FileWatch

/-- A finite map from keys, told apart by `==`, to values. -/
structure Dict (κ α : Type) [BEq κ] where
  /-- The stored pairs, oldest key first. -/
  entries : List (κ × α)
  /-- No key is stored twice. -/
  distinct : entries.Pairwise fun a b => (a.1 == b.1) = false

namespace Dict

variable {κ α : Type} [BEq κ]

/-- The map without entries. -/
def empty : Dict κ α := ⟨[], .nil⟩

instance : EmptyCollection (Dict κ α) := ⟨empty⟩

instance : Inhabited (Dict κ α) := ⟨empty⟩

/-- How many keys are stored. -/
def size (d : Dict κ α) : Nat := d.entries.length

/-- The stored keys, each in its first spelling. -/
def keys (d : Dict κ α) : List κ := d.entries.map (·.1)

def values (d : Dict κ α) : List α := d.entries.map (·.2)

/-- The value stored under a key, in whatever spelling. -/
def find? (d : Dict κ α) (k : κ) : Option α :=
  (d.entries.find? fun e => e.1 == k).map (·.2)

/-- Whether anything is stored under a key. -/
def contains (d : Dict κ α) (k : κ) : Bool := d.entries.any fun e => e.1 == k

theorem pairwise_reassign {l : List (κ × α)} (k : κ) (a : α)
    (h : l.Pairwise fun x y => (x.1 == y.1) = false) :
    (l.map fun e => if e.1 == k then (e.1, a) else e).Pairwise
      fun x y => (x.1 == y.1) = false := by
  refine List.pairwise_map.2 (h.imp ?_)
  intro x y hxy
  by_cases hx : x.1 == k <;> by_cases hy : y.1 == k <;> simp [hx, hy, hxy]

/-- Store a value under a key.  A key that is there already keeps its spelling and its place. -/
def insert (d : Dict κ α) (k : κ) (a : α) : Dict κ α :=
  if h : d.contains k then
    ⟨d.entries.map fun e => if e.1 == k then (e.1, a) else e, pairwise_reassign k a d.distinct⟩
  else
    ⟨d.entries ++ [(k, a)], by
      refine List.pairwise_append.2 ⟨d.distinct, by simp, ?_⟩
      intro x hx y hy
      obtain rfl := List.mem_singleton.1 hy
      have : ¬ ∃ z ∈ d.entries, (z.1 == k) = true := by simpa [contains] using h
      exact Bool.eq_false_iff.2 fun hk => this ⟨x, hx, hk⟩⟩

/-- Forget a key. -/
def erase (d : Dict κ α) (k : κ) : Dict κ α :=
  ⟨d.entries.filter fun e => !(e.1 == k), d.distinct.filter _⟩

/-- Keep the entries that pass a test. -/
def filter (d : Dict κ α) (keep : κ → α → Bool) : Dict κ α :=
  ⟨d.entries.filter fun e => keep e.1 e.2, d.distinct.filter _⟩

end Dict

end FileWatch
