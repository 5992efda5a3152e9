import Mathlib
import FileWatch.Proofs.Toml.Scan
import FileWatch.Toml.Document

/-!
# The top of a document

Every statement of a text, a pair or a header, speaks of one name at the top of the document; this is
its *mention*.  What the statement does there is one of three things (`Enters`): a new entry at the
end, another value for the entry of that name, or the entry moved to the end.  Only a header `[name]`
moves an entry, that of a table which longer headers implied.

So two things are known of the entries that a text gives, whatever else it holds.  Their integers fit
64 bits, because the scan of a value refuses longer ones.  And they stand in the order of the text
(`Counted`): each name once, at its first mention, except that a table which a header of its own opens
stands at that header.
-/

namespace FileWatch.Toml

open Scan

/-- An integer that fits 64 bits. -/
def Fits64 (n : Int) : Prop := -(integerLimit : Int) ≤ n ∧ n < integerLimit

/-- If the value is an integer, it fits. -/
def Value.Fits (v : Value) : Prop := ∀ n, v = .integer n → Fits64 n

/-- A name at the top of a document, where a statement speaks of it; and whether the statement is the
header that opens the table of this name. -/
structure Mention where
  key : Key
  opens : Bool

def Mention.name (m : Mention) : String := m.key.name

def Pair.mention? (p : Pair) : Option Mention := p.path.head?.map fun k => ⟨k, false⟩

/-- Of `[a]`, `[a.b]` and `[[a]]` only the first opens a table at the top. -/
def Section.mention? (s : Section) : Option Mention :=
  s.header.path.head?.map fun k => ⟨k, !s.header.repeated && s.header.path.length == 1⟩

/-- The mentions of a text, in its order. -/
def mentions (top : List Pair) (ss : List Section) : List Mention :=
  top.filterMap Pair.mention? ++ ss.filterMap Section.mention?

/-! ## One statement -/

/-- What one statement does to the entries at the top, by the mention it makes. -/
inductive Enters (es : Entries) : Mention → Entries → Prop
  | appends (k : Key) (place : Option Span) (v : Value) (hnew : entryNamed? es k.name = none)
      (hfits : v.Fits) : Enters es ⟨k, false⟩ (es ++ [(k, place, v)])
  | replaces (k : Key) (place : Option Span) (v : Value) (hold : entryNamed? es k.name ≠ none)
      (hfits : v.Fits) : Enters es ⟨k, false⟩ (putEntry es k.name place v)
  | moves (k : Key) (place : Option Span) (v : Value) (hfits : v.Fits) :
      Enters es ⟨k, true⟩ (es.filter (fun e => !(e.1.name == k.name)) ++ [(k, place, v)])

theorem fits_table (form : TableForm) (es : Entries) : (Value.table form es).Fits := nofun

theorem fits_tables (items : List Value) : (Value.tables items).Fits := nofun

/-- A path of names changes the entry of the first, whatever happens further down. -/
theorem enters_of_descend {form here : TableForm} {k : Key} {path : List Key}
    {change : TableForm → Entries → Option Entries} {es es' : Entries}
    (h : descend form (k :: path) change here es = some es') : Enters es ⟨k, false⟩ es' := by
  unfold descend at h
  split at h
  · rename_i hnew
    obtain ⟨inner, -, hes⟩ := Option.bind_eq_some_iff.mp h
    cases hes
    exact .appends k none _ hnew (fits_table _ _)
  · rename_i hold
    split at h
    · cases h
    · obtain ⟨inner, -, hes⟩ := Option.bind_eq_some_iff.mp h
      cases hes
      exact .replaces k _ _ (by rw [hold]; exact Option.some_ne_none _) (fits_table _ _)
  · rename_i hold
    split at h
    · obtain ⟨inner, -, hes⟩ := Option.bind_eq_some_iff.mp h
      cases hes
      exact .replaces k _ _ (by rw [hold]; exact Option.some_ne_none _) (fits_tables _)
    · cases h
  · cases h

/-- A path is a last name below the others. -/
theorem path_cases {path : List Key} {name : Key} (h : path.getLast? = some name) :
    path = [name] ∨ ∃ k above, path.dropLast = k :: above ∧ path.head? = some k ∧ path.length ≠ 1 := by
  obtain ⟨front, rfl⟩ := List.getLast?_eq_some_iff.mp h
  cases front with
  | nil => exact .inl rfl
  | cons k above => exact .inr ⟨k, above, List.dropLast_concat, rfl, by simp⟩

theorem enters_of_addPair {p : Pair} {es es' : Entries} (hfits : p.value.Fits)
    (h : addPair es p = some es') : ∃ m, p.mention? = some m ∧ Enters es m es' := by
  obtain ⟨name, hname, h⟩ := Option.bind_eq_some_iff.mp h
  unfold Pair.mention?
  rcases path_cases hname with hpath | ⟨k, above, habove, hhead, -⟩
  · rw [hpath] at h ⊢
    refine ⟨⟨name, false⟩, rfl, ?_⟩
    simp only [List.dropLast_singleton, descend, Option.ite_none_right_eq_some,
      Option.some.injEq, Option.isNone_iff_eq_none] at h
    obtain ⟨⟨-, hnew⟩, rfl⟩ := h
    exact .appends name _ _ hnew hfits
  · rw [habove] at h
    rw [hhead]
    exact ⟨⟨k, false⟩, rfl, enters_of_descend h⟩

theorem enters_of_addRepeated {s : Section} {name : Key} {es es' : Entries}
    (h : addRepeated s name es = some es') : Enters es ⟨name, false⟩ es' := by
  obtain ⟨inner, -, h⟩ := Option.bind_eq_some_iff.mp h
  split at h
  · rename_i hnew
    cases h
    exact .appends name _ _ hnew (fits_tables _)
  · rename_i hold
    cases h
    exact .replaces name _ _ (by rw [hold]; exact Option.some_ne_none _) (fits_tables _)
  · cases h

theorem enters_of_addOpened {s : Section} {name : Key} {es es' : Entries}
    (h : addOpened s name es = some es') : Enters es ⟨name, true⟩ es' := by
  have hmoves : ∀ before, (s.pairs.foldlM addPair before).bind (fun inner =>
      some (es.filter (fun e => !(e.1.name == name.name))
        ++ [(name, some s.span, .table .header inner)])) = some es' →
      Enters es ⟨name, true⟩ es' := by
    intro before hbefore
    obtain ⟨inner, -, hes⟩ := Option.bind_eq_some_iff.mp hbefore
    cases hes
    exact .moves name _ _ (fits_table _ _)
  unfold addOpened at h
  split at h
  · exact hmoves [] h
  · exact hmoves _ h
  · cases h

theorem enters_of_addSection {s : Section} {es es' : Entries} (h : addSection es s = some es') :
    ∃ m, s.mention? = some m ∧ Enters es m es' := by
  obtain ⟨name, hname, h⟩ := Option.bind_eq_some_iff.mp h
  unfold Section.mention?
  rcases path_cases hname with hpath | ⟨k, above, habove, hhead, hlength⟩
  · rw [hpath] at h ⊢
    simp only [List.dropLast_singleton, descend] at h
    cases hrepeated : s.header.repeated with
    | true =>
      rw [hrepeated] at h
      exact ⟨⟨name, false⟩, rfl, enters_of_addRepeated h⟩
    | false =>
      rw [hrepeated] at h
      exact ⟨⟨name, true⟩, rfl, enters_of_addOpened h⟩
  · rw [habove] at h
    rw [hhead, beq_false_of_ne hlength, Bool.and_false]
    exact ⟨⟨k, false⟩, rfl, enters_of_descend h⟩

/-! ## Numbers that fit -/

theorem yields_fitting (n : Int) : Yields (fitting n) Fits64 := by
  unfold fitting
  split
  · rename_i hfits
    exact yields_pure hfits
  · exact yields_failure

theorem yields_basedInteger (mark : String) (base : Nat) :
    Yields (basedInteger mark base) Fits64 :=
  Yields.after fun _ => Yields.after fun _ => yields_fitting _

theorem yields_integer : Yields integer Fits64 := by
  have hdecimal : Yields decimalInteger Fits64 :=
    Yields.after fun _ => Yields.after fun _ => yields_fitting _
  exact (yields_basedInteger _ _).orElse
    ((yields_basedInteger _ _).orElse ((yields_basedInteger _ _).orElse hdecimal))

theorem yields_arrayOf (item : Scan Value) : Yields (arrayOf item) Value.Fits := by
  refine Yields.after fun _ => Yields.after fun items => ?_
  have hclose : Yields (do gap; char ']'; return .array (items.getD [])) Value.Fits :=
    Yields.after fun _ => Yields.after fun _ => yields_pure nofun
  split
  · exact Yields.after fun _ => hclose
  · exact Yields.after fun _ => hclose

theorem yields_value (levels : Nat) : Yields (value levels) Value.Fits := by
  cases levels with
  | zero => exact yields_failure
  | succ levels =>
    rw [value]
    refine Yields.after fun c => ?_
    split
    · exact Yields.after fun _ => yields_pure nofun
    · exact Yields.after fun _ => yields_pure nofun
    · exact Yields.after fun _ => yields_arrayOf _
    · refine Yields.after fun _ => Yields.after fun ps => ?_
      split
      · rename_i v hv
        obtain ⟨inner, -, hv⟩ := Option.bind_eq_some_iff.mp hv
        cases hv
        exact yields_pure (fits_table _ _)
      · exact yields_failure
    · exact Yields.after fun _ => yields_pure nofun
    · exact Yields.after fun _ => yields_pure nofun
    · refine Yields.orElse (Yields.after fun _ => yields_pure nofun) ?_
      refine Yields.orElse (Yields.after fun _ => yields_pure nofun) ?_
      refine Yields.bind yields_integer fun n hn => yields_pure ?_
      rintro _ ⟨⟩
      exact hn

theorem yields_pairs : Yields pairs fun ps => ∀ p ∈ ps, p.value.Fits := by
  have hpairOf : Yields (pairOf (value depthLimit)) fun p => p.value.Fits :=
    Yields.after fun _ => Yields.after fun _ => Yields.after fun _ =>
      Yields.bind (yields_located (yields_value depthLimit)) fun _ hv => yields_pure hv
  have hpair : Yields pair fun p => p.value.Fits :=
    Yields.bind hpairOf fun _ hp => Yields.after fun _ => yields_pure hp
  refine Yields.after fun _ => yields_many ?_
  exact Yields.bind hpair fun _ hp => Yields.after fun _ => yields_pure hp

theorem yields_sections : Yields sections fun x => ∀ p ∈ x.1, p.value.Fits :=
  Yields.after fun _ => Yields.bind yields_pairs fun _ htop =>
    Yields.after fun _ => Yields.after fun _ => yields_pure htop

/-! ## The order of the entries -/

/-- The mentions at which the names of a text stand: the first of each name, except that a table
which a header of its own opens stands at that header. -/
structure Counted (ms counted : List Mention) : Prop where
  sublist : counted.Sublist ms
  named : ∀ m ∈ ms, m.name ∈ counted.map Mention.name
  distinct : (counted.map Mention.name).Nodup
  placed : ∀ m ∈ counted, m.opens = true ∨
    ms.find? (·.name == m.name) = some m ∧ ∀ o ∈ ms, o.name = m.name → o.opens = false

/-- The names that stand in the document after one mention more. -/
def enter (counted : List Mention) (m : Mention) : List Mention :=
  if m.opens then counted.filter (fun o => !(o.name == m.name)) ++ [m]
  else if m.name ∈ counted.map Mention.name then counted
  else counted ++ [m]

variable {ms counted : List Mention} {m : Mention}

theorem enter_opened (hopens : m.opens = true) :
    enter counted m = counted.filter (fun o => !(o.name == m.name)) ++ [m] := by
  simp [enter, hopens]

theorem enter_again (hopens : m.opens = false) (hold : m.name ∈ counted.map Mention.name) :
    enter counted m = counted := by
  simp only [enter, hopens, hold, if_true, Bool.false_eq_true, if_false]

theorem enter_first (hopens : m.opens = false) (hnew : m.name ∉ counted.map Mention.name) :
    enter counted m = counted ++ [m] := by
  simp only [enter, hopens, hnew, Bool.false_eq_true, if_false]

theorem counted_nil : Counted [] [] :=
  ⟨.slnil, nofun, .nil, nofun⟩

/-- What counts before a mention of another name counts after it. -/
theorem Counted.placed_concat (h : Counted ms counted) {o : Mention} (ho : o ∈ counted)
    (hm : m.name = o.name → m.opens = false) :
    o.opens = true ∨
      (ms ++ [m]).find? (·.name == o.name) = some o
        ∧ ∀ x ∈ ms ++ [m], x.name = o.name → x.opens = false := by
  refine (h.placed o ho).imp_right fun ⟨hfirst, hopens⟩ => ⟨?_, ?_⟩
  · rw [List.find?_append, hfirst]
    rfl
  · exact List.forall_mem_append.mpr ⟨hopens, List.forall_mem_singleton.mpr hm⟩

/-- The header of a table: whatever its name counted as before, it counts here. -/
theorem Counted.opened (h : Counted ms counted) (hopens : m.opens = true) :
    Counted (ms ++ [m]) (counted.filter (fun o => !(o.name == m.name)) ++ [m]) := by
  have hother : ∀ o ∈ counted.filter (fun o => !(o.name == m.name)), o.name ≠ m.name := by
    intro o ho
    simpa using (List.mem_filter.mp ho).2
  refine ⟨(List.filter_sublist.trans h.sublist).append (.refl _), ?_, ?_, ?_⟩
  · intro o ho
    rw [List.map_append, List.mem_append]
    by_cases hname : o.name = m.name
    · rw [hname]
      exact .inr List.mem_cons_self
    · rcases List.mem_append.mp ho with ho | ho
      · obtain ⟨x, hx, hxo⟩ := List.mem_map.mp (h.named o ho)
        refine .inl (List.mem_map.mpr ⟨x, List.mem_filter.mpr ⟨hx, ?_⟩, hxo⟩)
        simpa [hxo] using hname
      · exact absurd (congrArg Mention.name (List.mem_singleton.mp ho)) hname
  · rw [List.map_append]
    refine List.Nodup.append ((List.filter_sublist.map _).nodup h.distinct)
      (List.nodup_singleton _) ?_
    intro name hname hm
    obtain ⟨o, ho, rfl⟩ := List.mem_map.mp hname
    exact hother o ho (List.mem_singleton.mp hm)
  · refine List.forall_mem_append.mpr ⟨fun o ho => ?_, List.forall_mem_singleton.mpr (.inl hopens)⟩
    exact h.placed_concat (List.mem_filter.mp ho).1 fun hname => absurd hname.symm (hother o ho)

/-- Another mention of a name changes nothing. -/
theorem Counted.again (h : Counted ms counted) (hopens : m.opens = false)
    (hold : m.name ∈ counted.map Mention.name) : Counted (ms ++ [m]) counted where
  sublist := h.sublist.trans (List.sublist_append_left _ _)
  named := List.forall_mem_append.mpr ⟨h.named, List.forall_mem_singleton.mpr hold⟩
  distinct := h.distinct
  placed _ ho := h.placed_concat ho fun _ => hopens

/-- The first mention of a name. -/
theorem Counted.first (h : Counted ms counted) (hopens : m.opens = false)
    (hnew : m.name ∉ counted.map Mention.name) : Counted (ms ++ [m]) (counted ++ [m]) := by
  have hbefore : ∀ x ∈ ms, x.name ≠ m.name := fun x hx hname => hnew (hname ▸ h.named x hx)
  refine ⟨h.sublist.append (.refl _), ?_, ?_, ?_⟩
  · rw [List.map_append]
    refine List.forall_mem_append.mpr ⟨fun o ho => ?_, List.forall_mem_singleton.mpr ?_⟩
    · exact List.mem_append_left _ (h.named o ho)
    · exact List.mem_append_right _ List.mem_cons_self
  · rw [List.map_append]
    refine h.distinct.append (List.nodup_singleton _) ?_
    intro name hname hm
    rw [List.mem_singleton.mp hm] at hname
    exact hnew hname
  · refine List.forall_mem_append.mpr ⟨fun o ho => h.placed_concat ho fun _ => hopens, ?_⟩
    refine List.forall_mem_singleton.mpr (.inr ⟨?_, ?_⟩)
    · rw [List.find?_append, List.find?_eq_none.mpr fun x hx => by simpa using hbefore x hx]
      simp
    · exact List.forall_mem_append.mpr
        ⟨fun x hx hname => absurd hname (hbefore x hx), List.forall_mem_singleton.mpr fun _ => hopens⟩

theorem Counted.concat (h : Counted ms counted) (m : Mention) :
    Counted (ms ++ [m]) (enter counted m) := by
  cases hopens : m.opens with
  | true =>
    rw [enter_opened hopens]
    exact h.opened hopens
  | false =>
    by_cases hold : m.name ∈ counted.map Mention.name
    · rw [enter_again hopens hold]
      exact h.again hopens hold
    · rw [enter_first hopens hold]
      exact h.first hopens hold

theorem counted_foldl (ms : List Mention) : Counted ms (ms.foldl enter []) := by
  induction ms using List.reverseRecOn with
  | nil => exact counted_nil
  | append_singleton ms m ih =>
    rw [List.foldl_append]
    exact ih.concat m

/-! ## A whole text -/

/-- Entries that fit 64 bits and stand where some mentions count. -/
structure Stands (es : Entries) (counted : List Mention) : Prop where
  fits : ∀ e ∈ es, e.2.2.Fits
  keys : es.map (·.1) = counted.map Mention.key

theorem stands_nil : Stands [] [] := ⟨nofun, rfl⟩

variable {es es' : Entries} {v : Value}

theorem entryNamed?_eq_none {name : String} :
    entryNamed? es name = none ↔ name ∉ es.map (·.1.name) := by
  unfold entryNamed?
  rw [List.find?_eq_none, List.mem_map]
  simp

theorem Stands.names (h : Stands es counted) :
    es.map (·.1.name) = counted.map Mention.name := by
  have hnames := congrArg (List.map Key.name) h.keys
  rwa [List.map_map, List.map_map] at hnames

theorem keys_putEntry (es : Entries) (name : String) (place : Option Span) (v : Value) :
    (putEntry es name place v).map (·.1) = es.map (·.1) := by
  unfold putEntry
  rw [List.map_map]
  refine List.map_congr_left fun e _ => ?_
  show (if e.1.name == name then (e.1, place, v) else e).1 = e.1
  split <;> rfl

theorem fits_concat (hes : ∀ e ∈ es, e.2.2.Fits) (k : Key)
    (place : Option Span) (hv : v.Fits) : ∀ e ∈ es ++ [(k, place, v)], e.2.2.Fits :=
  List.forall_mem_append.mpr ⟨hes, List.forall_mem_singleton.mpr hv⟩

theorem fits_putEntry {name : String} {place : Option Span} (hes : ∀ e ∈ es, e.2.2.Fits)
    (hv : v.Fits) : ∀ e ∈ putEntry es name place v, e.2.2.Fits := by
  intro e he
  obtain ⟨old, hold, rfl⟩ := List.mem_map.mp he
  split
  · exact hv
  · exact hes old hold

theorem Stands.enters (h : Stands es counted) (hm : Enters es m es') :
    Stands es' (enter counted m) := by
  cases hm with
  | appends k place v hnew hfits =>
    rw [entryNamed?_eq_none, h.names] at hnew
    rw [enter_first rfl hnew]
    refine ⟨fits_concat h.fits k place hfits, ?_⟩
    rw [List.map_append, List.map_append, h.keys]
    rfl
  | replaces k place v hold hfits =>
    rw [ne_eq, entryNamed?_eq_none, not_not, h.names] at hold
    rw [enter_again rfl hold]
    exact ⟨fits_putEntry h.fits hfits, (keys_putEntry _ _ _ _).trans h.keys⟩
  | moves k place v hfits =>
    rw [enter_opened rfl]
    refine ⟨fits_concat (fun e he => h.fits e (List.mem_filter.mp he).1) k place hfits, ?_⟩
    have hfilter := congrArg (List.filter fun k' => !(k'.name == k.name)) h.keys
    rw [List.filter_map, List.filter_map] at hfilter
    rw [List.map_append, List.map_append]
    exact congrArg (· ++ [k]) hfilter

/-- Statements one after the other, where each makes a mention and enters it. -/
theorem Stands.foldlM {β : Type} {add : Entries → β → Option Entries}
    {mention? : β → Option Mention} {bs : List β}
    (hstep : ∀ b ∈ bs, ∀ es es', add es b = some es' →
      ∃ m, mention? b = some m ∧ Enters es m es')
    (h : Stands es counted) (hfold : bs.foldlM add es = some es') :
    Stands es' ((bs.filterMap mention?).foldl enter counted) := by
  induction bs generalizing es counted with
  | nil =>
    cases hfold
    exact h
  | cons b bs ih =>
    obtain ⟨middle, hadd, hrest⟩ := Option.bind_eq_some_iff.mp hfold
    obtain ⟨m, hm, henters⟩ := hstep b List.mem_cons_self es middle hadd
    rw [List.filterMap_cons_some hm]
    exact ih (fun b hb => hstep b (List.mem_cons_of_mem _ hb)) (h.enters henters) hrest

/-- **The entries of a document fit 64 bits and stand in the order of the text.** -/
theorem stands_of_read? {text : String} (h : read? text = some es) :
    ∃ top ss last, sections ⟨text.toList, 0⟩ = some ((top, ss), last)
      ∧ ∃ counted, Counted (mentions top ss) counted ∧ Stands es counted := by
  obtain ⟨⟨⟨top, ss⟩, last⟩, hsections, h⟩ := Option.bind_eq_some_iff.mp h
  obtain ⟨above, htop, hss⟩ := Option.bind_eq_some_iff.mp h
  have hfits := yields_sections _ _ _ hsections
  refine ⟨top, ss, last, hsections, _, counted_foldl _, ?_⟩
  rw [mentions, List.foldl_append]
  have habove := stands_nil.foldlM (fun p hp _ _ hadd => enters_of_addPair (hfits p hp) hadd) htop
  exact habove.foldlM (fun s _ _ _ hadd => enters_of_addSection hadd) hss

end FileWatch.Toml
