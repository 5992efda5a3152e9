import FileWatch.Proofs.Toml.Lines
import FileWatch.Settings

/-!
# Settings through a text

Reading settings is a walk through the entries at the top of a document.  The walk stops at the first
entry that *offends*, one of a setting with something else than a number from zero to what an integer
of a document can be.  Without such an entry every setting comes out as its entry has it, or as the
default.

Writing gives a text of plain lines, one for each setting with a value, and such a text is a document
of these lines (`Toml.read?_plain`).  So what was written is read back, unless a number is too large to
be written at all.
-/

namespace FileWatch

/-- What a complaint about a value tells of it. -/
def Toml.Value.asFound : Toml.Value → Toml.Found
  | .string s => .string s
  | .integer n => .integer n
  | .float x => .float x
  | .boolean b => .boolean b
  | .array _ | .tables _ => .sequence
  | .moment _ | .table _ _ => .map

/-- The value that a document gives a name at its top. -/
def Toml.value? (es : Toml.Entries) (name : String) : Option Toml.Value :=
  (Toml.entryNamed? es name).map (·.2.2)

namespace Settings

open Toml (Entries Value integerLimit entryNamed? value? read?)

abbrev Entry := Toml.Key × Option Toml.Span × Value

/-- A number that a setting can have. -/
def IsNumber (v : Value) : Prop := ∃ n : Nat, n < integerLimit ∧ v = .integer n

/-- An entry that gives a setting something that is no number for it. -/
def Offends (e : Entry) : Prop := ∃ f : Field, e.1.name = f.key ∧ ¬IsNumber e.2.2

/-- The fault of an entry of a setting: where the value stands, what it is and what was wanted. -/
def complaint (text : String) (f : Field) (e : Entry) : SettingsFault :=
  .misfit ⟨.ofSpan text (e.2.1.getD e.1.span), e.2.2.asFound, f.wanted⟩

/-- The fault is about the first of some names whose entry offends. -/
def BlamesFirst (text : String) (es : Entries) (names : List String) (fault : SettingsFault) :
    Prop :=
  ∃ before f after e, names = before ++ Field.key f :: after
    ∧ (∀ o ∈ es, o.1.name ∈ before → ¬Offends o)
    ∧ e ∈ es ∧ e.1.name = f.key ∧ Offends e ∧ fault = complaint text f e

/-! ## Settings one by one -/

theorem Field.key_inj {f g : Field} (h : f.key = g.key) : f = g := by
  cases f <;> cases g <;> first | rfl | exact absurd h (by decide)

theorem Field.ofKey?_eq_some {name : String} {f : Field} :
    Field.ofKey? name = some f ↔ name = f.key := by
  constructor
  · intro h
    have hkey : (f.key == name) = true := List.find?_some (p := fun f : Field => f.key == name) h
    exact (eq_of_beq hkey).symm
  · rintro rfl
    cases f <;> decide

theorem Field.ofKey?_eq_none {name : String} (h : ∀ f : Field, name ≠ f.key) :
    Field.ofKey? name = none := by
  rw [Option.eq_none_iff_forall_ne_some]
  exact fun f hf => h f (Field.ofKey?_eq_some.mp hf)

theorem Field.get?_set (f g : Field) (n : UInt64) (s : Settings) :
    f.get? (g.set n s) = if f = g then some n else f.get? s := by
  cases f <;> cases g <;> rfl

/-- Settings are known by the values of each. -/
theorem ext_get? {s s' : Settings} (h : ∀ f : Field, f.get? s = f.get? s') : s = s' := by
  obtain ⟨capacity, buffer, timeout, window⟩ := s
  have hbuffer := Option.some.inj (h .readBufferBytes)
  have hwindow := Option.some.inj (h .debounceMillis)
  simp only at hbuffer hwindow
  subst hbuffer hwindow
  have hcapacity := h .eventCapacity
  have htimeout := h .removeTimeoutMillis
  simp only [Field.get?] at hcapacity htimeout
  subst hcapacity htimeout
  rfl

/-! ## One entry -/

theorem numberOf_integer (n : Nat) : numberOf (.integer n) = .ok (UInt64.ofNat n) := by
  have hsign : ¬(n : Int) < 0 := by omega
  simp only [numberOf, hsign, if_false, Int.toNat_natCast]

theorem numberOf_of_not_isNumber {v : Value} (hfits : v.Fits) (h : ¬IsNumber v) :
    numberOf v = .error v.asFound := by
  cases v with
  | integer n =>
    have hsign : n < 0 := by
      by_contra hn
      exact h ⟨n.toNat, by have := (hfits n rfl).2; omega, by rw [Int.toNat_of_nonneg (by omega)]⟩
    simp only [numberOf, hsign, if_true, Value.asFound]
  | _ => rfl

theorem not_isNumber_table (form : Toml.TableForm) (es : Entries) :
    ¬IsNumber (.table form es) := by
  rintro ⟨n, -, ⟨⟩⟩

variable {e : Entry} {es : Entries} {s : Settings}

theorem take_of_offends (hfits : e.2.2.Fits) (h : Offends e) :
    ∃ f : Field, e.1.name = f.key
      ∧ ∀ s, take s e = .error ⟨e.2.1.getD e.1.span, e.2.2.asFound, f.wanted⟩ := by
  obtain ⟨f, hname, hvalue⟩ := h
  refine ⟨f, hname, fun s => ?_⟩
  unfold take
  rw [Field.ofKey?_eq_some.mpr hname, numberOf_of_not_isNumber hfits hvalue]

/-- An entry that does not offend is taken: its setting gets its value, and no other changes. -/
theorem take_of_not_offends (h : ¬Offends e) (s : Settings) :
    ∃ s', take s e = .ok s' ∧ ∀ f : Field,
      if e.1.name = f.key then ∃ n, f.get? s' = some n ∧ e.2.2 = .integer n.toNat
      else f.get? s' = f.get? s := by
  by_cases hknown : ∃ f : Field, e.1.name = f.key
  · obtain ⟨g, hg⟩ := hknown
    have hnumber : IsNumber e.2.2 := by
      by_contra hvalue
      exact h ⟨g, hg, hvalue⟩
    obtain ⟨n, hn, hvalue⟩ := hnumber
    refine ⟨g.set (UInt64.ofNat n) s, ?_, fun f => ?_⟩
    · unfold take
      rw [Field.ofKey?_eq_some.mpr hg, hvalue, numberOf_integer]
    · rw [Field.get?_set, hg]
      split
      · rename_i hkey
        rw [if_pos (Field.key_inj hkey).symm]
        refine ⟨_, rfl, ?_⟩
        rw [hvalue, UInt64.toNat_ofNat_of_lt' (Nat.lt_of_lt_of_le hn (by decide))]
      · rename_i hkey
        rw [if_neg fun hfg => hkey (congrArg Field.key hfg.symm)]
  · rw [not_exists] at hknown
    refine ⟨s, ?_, fun f => ?_⟩
    · unfold take
      rw [Field.ofKey?_eq_none hknown]
    · rw [if_neg (hknown f)]

/-! ## All entries -/

theorem entryNamed?_eq_some (hdistinct : (es.map (·.1.name)).Nodup) {name : String} :
    entryNamed? es name = some e ↔ e ∈ es ∧ e.1.name = name := by
  constructor
  · intro h
    exact ⟨List.mem_of_find?_eq_some h, by simpa using List.find?_some h⟩
  · rintro ⟨he, rfl⟩
    cases hfound : entryNamed? es e.1.name with
    | none => exact absurd (List.mem_map_of_mem he) (Toml.entryNamed?_eq_none.mp hfound)
    | some o =>
      have hname : o.1.name = e.1.name := by simpa using List.find?_some hfound
      rw [List.inj_on_of_nodup_map hdistinct (List.mem_of_find?_eq_some hfound) he hname]

/-- Where no entry offends, the walk comes to the values of the entries, and to what was there before
for a setting without an entry. -/
theorem foldlM_take_of_not_offends (h : ∀ e ∈ es, ¬Offends e)
    (hdistinct : (es.map (·.1.name)).Nodup) (s : Settings) :
    ∃ s', es.foldlM take s = .ok s' ∧ ∀ f : Field, match value? es f.key with
      | some v => ∃ n, f.get? s' = some n ∧ v = .integer n.toNat
      | none => f.get? s' = f.get? s := by
  induction es generalizing s with
  | nil => exact ⟨s, rfl, fun f => rfl⟩
  | cons e es ih =>
    rw [List.map_cons, List.nodup_cons] at hdistinct
    obtain ⟨s₁, htake, hfirst⟩ := take_of_not_offends (h e List.mem_cons_self) s
    obtain ⟨s₂, hwalk, hothers⟩ := ih (fun o ho => h o (List.mem_cons_of_mem e ho)) hdistinct.2 s₁
    refine ⟨s₂, ?_, fun f => ?_⟩
    · rw [List.foldlM_cons, htake]
      exact hwalk
    · have hf := hfirst f
      have hrest := hothers f
      by_cases hname : e.1.name = f.key
      · have hnone : entryNamed? es f.key = none := by
          rw [← hname]
          exact Toml.entryNamed?_eq_none.mpr hdistinct.1
        rw [if_pos hname] at hf
        simp only [value?, hnone, Option.map_none] at hrest
        simp only [value?, entryNamed?, List.find?_cons, hname, BEq.rfl, Option.map_some]
        rwa [hrest]
      · rw [if_neg hname] at hf
        have hskip : value? (e :: es) f.key = value? es f.key := by
          simp only [value?, entryNamed?, List.find?_cons, beq_false_of_ne hname]
        rw [hskip, ← hf]
        exact hrest

/-- The walk stops at the first entry that offends. -/
theorem foldlM_take_of_offends {before : Entries} (hbefore : ∀ o ∈ before, ¬Offends o)
    (hdistinct : (before.map (·.1.name)).Nodup) (hfits : e.2.2.Fits) (he : Offends e)
    (after : Entries) (s : Settings) :
    ∃ f : Field, e.1.name = f.key ∧ (before ++ e :: after).foldlM take s
      = .error ⟨e.2.1.getD e.1.span, e.2.2.asFound, f.wanted⟩ := by
  obtain ⟨s₁, hwalk, -⟩ := foldlM_take_of_not_offends hbefore hdistinct s
  obtain ⟨f, hname, htake⟩ := take_of_offends hfits he
  refine ⟨f, hname, ?_⟩
  rw [List.foldlM_append, hwalk]
  show (take s₁ e).bind _ = _
  rw [htake]
  rfl

theorem exists_first_offender (h : ∃ e ∈ es, Offends e) :
    ∃ before e after, es = before ++ e :: after ∧ Offends e ∧ ∀ o ∈ before, ¬Offends o := by
  classical
  obtain ⟨e, hfound⟩ := Option.isSome_iff_exists.mp
    (List.find?_isSome (p := fun e => decide (Offends e)) |>.mpr (by simpa using h))
  obtain ⟨he, before, after, hsplit, hbefore⟩ := List.find?_eq_some_iff_append.mp hfound
  exact ⟨before, e, after, hsplit, by simpa using he, fun o ho => by simpa using hbefore o ho⟩

/-! ## A document -/

/-- No entry offends exactly if the values of all settings are numbers for them. -/
theorem forall_not_offends_iff (hdistinct : (es.map (·.1.name)).Nodup) :
    (∀ e ∈ es, ¬Offends e) ↔ ∀ (f : Field) v, value? es f.key = some v → IsNumber v := by
  constructor
  · intro h f v hv
    obtain ⟨e, he, rfl⟩ := Option.map_eq_some_iff.mp hv
    obtain ⟨hmem, hname⟩ := (entryNamed?_eq_some hdistinct).mp he
    by_contra hvalue
    exact h e hmem ⟨f, hname, hvalue⟩
  · rintro h e he ⟨f, hname, hvalue⟩
    have hfound := (entryNamed?_eq_some hdistinct).mpr ⟨he, hname⟩
    exact hvalue (h f e.2.2 (by rw [value?, hfound]; rfl))

theorem ofToml_of_not_offends {text : String} (hread : read? text = some es)
    (hdistinct : (es.map (·.1.name)).Nodup) (h : ∀ e ∈ es, ¬Offends e) :
    ∃ s, ofToml text = .ok s ∧ ∀ f : Field, match value? es f.key with
      | some v => ∃ n, f.get? s = some n ∧ v = .integer n.toNat
      | none => f.get? s = f.get? default := by
  obtain ⟨s, hwalk, hvalues⟩ := foldlM_take_of_not_offends h hdistinct default
  refine ⟨s, ?_, hvalues⟩
  simp only [ofToml, hread, ofEntries, hwalk]

theorem ofToml_of_offends {text : String} (hread : read? text = some es)
    (hdistinct : (es.map (·.1.name)).Nodup) (hfits : ∀ e ∈ es, e.2.2.Fits)
    (h : ∃ e ∈ es, Offends e) :
    ∃ fault, ofToml text = .error fault ∧ BlamesFirst text es (es.map (·.1.name)) fault := by
  obtain ⟨before, e, after, rfl, he, hbefore⟩ := exists_first_offender h
  have hmem : e ∈ before ++ e :: after := List.mem_append_right _ List.mem_cons_self
  have hnames := hdistinct
  rw [List.map_append] at hnames
  obtain ⟨hfirst, -, hdisjoint⟩ := List.nodup_append'.mp hnames
  obtain ⟨f, hname, hwalk⟩ :=
    foldlM_take_of_offends hbefore hfirst (hfits e hmem) he after default
  refine ⟨complaint text f e, ?_, before.map (·.1.name), f, after.map (·.1.name), e, ?_, ?_, hmem,
    hname, he, rfl⟩
  · simp only [ofToml, hread, ofEntries, hwalk, complaint]
  · rw [List.map_append, List.map_cons, hname]
  · intro o ho hbefore'
    rcases List.mem_append.mp ho with ho | ho
    · exact hbefore o ho
    · exact absurd (List.mem_map_of_mem ho) (hdisjoint hbefore')

/-! ## Writing -/

/-- The settings that have a value, in the order in which they are written. -/
def given (s : Settings) : List (Field × UInt64) :=
  Field.all.filterMap fun f => (f.get? s).map fun n => (f, n)

theorem mem_given {f : Field} {n : UInt64} : (f, n) ∈ given s ↔ f.get? s = some n := by
  have hall : f ∈ Field.all := by cases f <;> decide
  unfold given
  rw [List.mem_filterMap]
  constructor
  · rintro ⟨g, -, hg⟩
    obtain ⟨m, hm, ⟨⟩⟩ := Option.map_eq_some_iff.mp hg
    exact hm
  · intro h
    exact ⟨f, hall, by rw [h]; rfl⟩

/-- The settings that have a value as plain lines. -/
def plainLines (s : Settings) : List (String × Nat) :=
  (given s).map fun e => (e.1.key, e.2.toNat)

theorem mem_plainLines {f : Field} {n : Nat} :
    (f.key, n) ∈ plainLines s ↔ ∃ m, f.get? s = some m ∧ m.toNat = n := by
  unfold plainLines
  rw [List.mem_map]
  constructor
  · rintro ⟨⟨g, m⟩, hm, heq⟩
    obtain ⟨hkey, hn⟩ := Prod.mk.inj heq
    cases Field.key_inj hkey
    exact ⟨m, mem_given.mp hm, hn⟩
  · rintro ⟨m, hm, rfl⟩
    exact ⟨(f, m), mem_given.mpr hm, rfl⟩

theorem nodup_plainLines (s : Settings) : ((plainLines s).map (·.1)).Nodup := by
  have hkeys : Field.all.Pairwise fun f g => f.key ≠ g.key := by decide
  unfold plainLines given
  rw [List.map_map, List.nodup_iff_pairwise_ne, List.pairwise_map]
  refine hkeys.filterMap _ fun f g hfg e he e' he' => ?_
  obtain ⟨n, -, rfl⟩ := Option.map_eq_some_iff.mp he
  obtain ⟨n', -, rfl⟩ := Option.map_eq_some_iff.mp he'
  exact hfg

theorem Field.isBare_key (f : Field) : Toml.IsBare f.key := by
  cases f <;> decide

theorem toList_line (f : Field) (n : UInt64) :
    (line f n).toList = Toml.plainLine f.key n.toNat := by
  unfold line Toml.plainLine Toml.plainPair
  simp only [String.toList_append, Nat.toString_eq_repr, Nat.toList_repr]
  simp

theorem join_lines (s : Settings) :
    String.join ((given s).map fun e => line e.1 e.2)
      = String.ofList (Toml.plainText (plainLines s)) := by
  rw [← String.toList_inj, String.toList_join, String.toList_ofList, Toml.plainText, plainLines,
    List.flatMap_map, List.flatMap_map]
  exact List.flatMap_congr fun e _ => toList_line e.1 e.2

theorem toToml_of_fits (h : ∀ (f : Field) n, f.get? s = some n → n.toNat < integerLimit) :
    toToml s = some (String.ofList (Toml.plainText (plainLines s))) := by
  rw [← join_lines]
  refine if_pos (List.all_eq_true.mpr fun e he => ?_)
  exact decide_eq_true (h e.1 e.2 (mem_given.mp he))

theorem toToml_of_large {f : Field} {n : UInt64} (hn : f.get? s = some n)
    (hlarge : integerLimit ≤ n.toNat) : toToml s = none := by
  refine if_neg fun hall => ?_
  have hfits := of_decide_eq_true (List.all_eq_true.mp hall (f, n) (mem_given.mpr hn))
  exact absurd hfits (Nat.not_lt.mpr hlarge)

/-- A setting without a value has none where nothing is said either. -/
theorem get?_default_of_none {f : Field} (h : f.get? s = none) : f.get? default = none := by
  cases f <;> first | rfl | cases h

/-- A plain line for each setting that has a value gives the entries of a document, and reading them
gives the settings. -/
theorem ofToml_plainText (h : ∀ (f : Field) n, f.get? s = some n → n.toNat < integerLimit) :
    ofToml (String.ofList (Toml.plainText (plainLines s))) = .ok s := by
  have hlines : ∀ l ∈ plainLines s, Toml.IsBare l.1 ∧ l.2 < integerLimit := by
    intro l hl
    obtain ⟨⟨f, n⟩, hn, rfl⟩ := List.mem_map.mp hl
    exact ⟨f.isBare_key, h f n (mem_given.mp hn)⟩
  obtain ⟨es, hread, hes⟩ := Toml.read?_plain hlines (nodup_plainLines s)
  have hnames := Toml.names_of_plain hes
  have hdistinct : (es.map (·.1.name)).Nodup := hnames ▸ nodup_plainLines s
  have hgood : ∀ e ∈ es, ¬Offends e := by
    rintro e he ⟨f, -, hvalue⟩
    obtain ⟨n, hn, hv⟩ := Toml.mem_of_plain hes he
    exact hvalue ⟨n, (hlines _ hn).2, hv⟩
  obtain ⟨s', hok, hvalues⟩ := ofToml_of_not_offends hread hdistinct hgood
  rw [hok]
  refine congrArg _ (ext_get? fun f => ?_)
  have hf := hvalues f
  cases hfound : entryNamed? es f.key with
  | some e =>
    obtain ⟨he, hname⟩ := (entryNamed?_eq_some hdistinct).mp hfound
    obtain ⟨k, hk, hv⟩ := Toml.mem_of_plain hes he
    obtain ⟨m, hm, rfl⟩ := mem_plainLines.mp (hname ▸ hk)
    simp only [value?, hfound, Option.map_some] at hf
    obtain ⟨n, hn, hvalue⟩ := hf
    rw [hv] at hvalue
    rw [hn, hm, UInt64.toNat_inj.mp (Int.ofNat.inj (Value.integer.inj hvalue))]
  | none =>
    simp only [value?, hfound, Option.map_none] at hf
    rw [Toml.entryNamed?_eq_none, hnames] at hfound
    have hnone : f.get? s = none := by
      rw [Option.eq_none_iff_forall_ne_some]
      intro m hm
      exact hfound (List.mem_map_of_mem (mem_plainLines.mpr ⟨m, hm, rfl⟩))
    rw [hf, hnone, get?_default_of_none hnone]

/-! ## Both ways -/

/-- **Reading is exact and undoes writing.**  A document gives settings exactly if each setting it
names has a number that an integer of a document can be, and then each has this number, or the default
if it is not named.  Otherwise the fault is about the first entry that offends, in the order in which
the names of the text count.  Settings with such numbers are read back from their written form, and
others have none. -/
theorem ofToml_exact {text : String} (hread : read? text = some es) :
    ((∃ s, ofToml text = .ok s) ↔ ∀ (f : Field) v, value? es f.key = some v → IsNumber v)
    ∧ (∀ s, ofToml text = .ok s → ∀ f : Field, match value? es f.key with
        | some v => ∃ n, f.get? s = some n ∧ v = .integer n.toNat
        | none => f.get? s = f.get? default)
    ∧ (∃ top ss last counted, Toml.sections ⟨text.toList, 0⟩ = some ((top, ss), last)
        ∧ Toml.Counted (Toml.mentions top ss) counted
        ∧ es.map (·.1) = counted.map Toml.Mention.key
        ∧ ∀ fault, ofToml text = .error fault →
          BlamesFirst text es (counted.map Toml.Mention.name) fault)
    ∧ ∀ s,
      ((∀ (f : Field) n, f.get? s = some n → n.toNat < integerLimit) →
        ∃ written, toToml s = some written ∧ ofToml written = .ok s)
      ∧ ∀ (f : Field) n, f.get? s = some n → integerLimit ≤ n.toNat → toToml s = none := by
  obtain ⟨top, ss, last, hsections, counted, hcounted, hstands⟩ := Toml.stands_of_read? hread
  have hdistinct : (es.map (·.1.name)).Nodup := hstands.names ▸ hcounted.distinct
  have hwriting : ∀ s,
      ((∀ (f : Field) n, f.get? s = some n → n.toNat < integerLimit) →
        ∃ written, toToml s = some written ∧ ofToml written = .ok s)
      ∧ ∀ (f : Field) n, f.get? s = some n → integerLimit ≤ n.toNat → toToml s = none :=
    fun _ => ⟨fun h => ⟨_, toToml_of_fits h, ofToml_plainText h⟩, fun _ _ => toToml_of_large⟩
  by_cases hgood : ∀ e ∈ es, ¬Offends e
  · obtain ⟨s, hs, hvalues⟩ := ofToml_of_not_offends hread hdistinct hgood
    refine ⟨⟨fun _ => (forall_not_offends_iff hdistinct).mp hgood, fun _ => ⟨s, hs⟩⟩, ?_,
      ⟨top, ss, last, counted, hsections, hcounted, hstands.keys, ?_⟩, hwriting⟩
    · intro s' hs'
      rw [hs] at hs'
      cases hs'
      exact hvalues
    · intro fault hfault
      rw [hs] at hfault
      cases hfault
  · have hbad : ∃ e ∈ es, Offends e := by
      simpa only [not_forall, not_not, exists_prop] using hgood
    obtain ⟨fault, hfault, hblames⟩ := ofToml_of_offends hread hdistinct hstands.fits hbad
    refine ⟨⟨?_, fun h => absurd ((forall_not_offends_iff hdistinct).mpr h) hgood⟩, ?_,
      ⟨top, ss, last, counted, hsections, hcounted, hstands.keys, ?_⟩, hwriting⟩
    · rintro ⟨s, hs⟩
      rw [hfault] at hs
      cases hs
    · intro s hs
      rw [hfault] at hs
      cases hs
    · intro fault' hfault'
      rw [hfault] at hfault'
      cases hfault'
      rw [← hstands.names]
      exact hblames

/-- A setting of the document, and one of a table in it, which is none. -/
theorem ofToml_exact_below_a_table :
    ∃ s, ofToml "event_capacity = 8\n[own]\ndebounce_ms = -1\n" = .ok s
      ∧ s.eventCapacity = some 8 ∧ s.debounceMillis = UInt64.ofNat defaultDebounceMillis := by
  have hread : read? "event_capacity = 8\n[own]\ndebounce_ms = -1\n" = some
      [(⟨"event_capacity", ⟨0, 14⟩⟩, some ⟨17, 18⟩, .integer 8),
        (⟨"own", ⟨20, 23⟩⟩, some ⟨19, 41⟩, .table .header
          [(⟨"debounce_ms", ⟨25, 36⟩⟩, some ⟨39, 41⟩, .integer (-1))])] := by
    cbv
  obtain ⟨hsuccess, hvalues, -⟩ := ofToml_exact hread
  obtain ⟨s, hs⟩ := hsuccess.mpr fun f v hv => by
    cases f with
    | eventCapacity => exact ⟨8, by decide, (Option.some.inj hv).symm⟩
    | _ => cases hv
  obtain ⟨n, hcapacity, hn⟩ := hvalues s hs .eventCapacity
  have hwindow := hvalues s hs .debounceMillis
  refine ⟨s, hs, ?_, Option.some.inj hwindow⟩
  have hn' : n.toNat = 8 := (Int.ofNat.inj (Value.integer.inj hn)).symm
  exact hcapacity.trans (congrArg some (UInt64.toNat_inj.mp hn'))

/-- A name does not always count where the text first speaks of it: a longer header may imply the
table of the name, and the header of the table itself come later. -/
theorem not_blamesFirst_mentions :
    ¬∀ text es top ss last fault, read? text = some es →
      Toml.sections ⟨text.toList, 0⟩ = some ((top, ss), last) → ofToml text = .error fault →
      BlamesFirst text es ((Toml.mentions top ss).map Toml.Mention.name) fault := by
  intro h
  have hread : read? "[debounce_ms.x]\n[event_capacity]\n[debounce_ms]" = some
      [(⟨"event_capacity", ⟨17, 31⟩⟩, some ⟨16, 32⟩, .table .header []),
        (⟨"debounce_ms", ⟨34, 45⟩⟩, some ⟨33, 46⟩, .table .header
          [(⟨"x", ⟨13, 14⟩⟩, some ⟨0, 15⟩, .table .header [])])] := by
    cbv
  have hsections : Toml.sections ⟨"[debounce_ms.x]\n[event_capacity]\n[debounce_ms]".toList, 0⟩
      = some (([], [⟨⟨[⟨"debounce_ms", ⟨1, 12⟩⟩, ⟨"x", ⟨13, 14⟩⟩], false, ⟨0, 15⟩⟩, []⟩,
        ⟨⟨[⟨"event_capacity", ⟨17, 31⟩⟩], false, ⟨16, 32⟩⟩, []⟩,
        ⟨⟨[⟨"debounce_ms", ⟨34, 45⟩⟩], false, ⟨33, 46⟩⟩, []⟩]), ⟨[], 46⟩) := by
    cbv
  have hfault : ofToml "[debounce_ms.x]\n[event_capacity]\n[debounce_ms]" = .error (.misfit
      ⟨⟨2, 1, "[event_capacity]", 16⟩, .map, .size⟩) := by
    cbv
  obtain ⟨before, f, after, e, hnames, hbefore, -, -, -, hblamed⟩ :=
    h _ _ _ _ _ _ hread hsections hfault
  cases before with
  | nil =>
    -- The fault would be about the name that comes first, and that one wants another kind of number.
    have hkey : "debounce_ms" = f.key := (List.cons.inj hnames).1
    cases Field.key_inj (f := .debounceMillis) hkey
    exact absurd (Toml.Misfit.mk.inj (SettingsFault.misfit.inj hblamed)).2.2 (by decide)
  | cons name before =>
    -- The name that comes first would not offend, but its value is a table.
    have hname : "debounce_ms" = name := (List.cons.inj hnames).1
    refine hbefore _ (List.mem_cons_of_mem _ List.mem_cons_self) ?_
      ⟨.debounceMillis, rfl, not_isNumber_table _ _⟩
    rw [← hname]
    exact List.mem_cons_self

end Settings

end FileWatch
