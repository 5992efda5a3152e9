import FileWatch.Toml.Scan
import Mathlib.Data.List.Forall2

/-!
# What scans take, refuse and yield

A scan is known by three things, and none of them depends on how far the text was read before.  It
*takes* some characters, given what stands behind them (`Takes`); it *refuses* a text (`Refuses`); and
whatever it takes, it *yields* a value of a certain kind (`Yields`).  Each way to build a scan has its
lemmas about the three, so a scan need not be opened to say what it does with a text of a known shape.
-/

namespace FileWatch.Toml.Scan

variable {α β : Type}

/-- The scan reads these characters if those stand behind, and comes to a value with a property. -/
def Takes (p : Scan α) (cs behind : List Char) (P : α → Prop) : Prop :=
  ∀ offset, ∃ a offset', p ⟨cs ++ behind, offset⟩ = some (a, ⟨behind, offset'⟩) ∧ P a

/-- The scan fails on the text. -/
def Refuses (p : Scan α) (text : List Char) : Prop := ∀ offset, p ⟨text, offset⟩ = none

/-- Where the scan does not fail it comes to a value with a property. -/
def Yields (p : Scan α) (P : α → Prop) : Prop := ∀ c a c', p c = some (a, c') → P a

theorem bind_apply (p : Scan α) (q : α → Scan β) (c : Cursor) :
    (p >>= q) c = (p c).bind fun x => q x.1 x.2 := rfl

theorem map_apply (p : Scan α) (f : α → β) (c : Cursor) :
    (f <$> p) c = (p c).map fun x => (f x.1, x.2) := by
  show (p c).bind _ = _
  cases p c <;> rfl

theorem orElse_apply (p q : Scan α) (c : Cursor) : (p <|> q) c = (p c <|> q c) := rfl

/-! ## Taking -/

variable {p q : Scan α} {k : α → Scan β} {cs ds behind text : List Char} {P : α → Prop}
  {Q : β → Prop}

theorem takes_pure {a : α} (h : P a) : Takes (pure a) [] behind P :=
  fun offset => ⟨a, offset, rfl, h⟩

theorem Takes.mono {P' : α → Prop} (h : Takes p cs behind P) (himp : ∀ a, P a → P' a) :
    Takes p cs behind P' := by
  intro offset
  obtain ⟨a, offset', hp, ha⟩ := h offset
  exact ⟨a, offset', hp, himp a ha⟩

theorem Takes.bind (h : Takes p cs (ds ++ behind) P) (hk : ∀ a, P a → Takes (k a) ds behind Q) :
    Takes (p >>= k) (cs ++ ds) behind Q := by
  intro offset
  obtain ⟨a, middle, hp, ha⟩ := h offset
  obtain ⟨b, offset', hb, hQ⟩ := hk a ha middle
  refine ⟨b, offset', ?_, hQ⟩
  rw [bind_apply, List.append_assoc, hp]
  exact hb

/-- A first step that reads nothing. -/
theorem Takes.skip (h : Takes p [] (ds ++ behind) P) (hk : ∀ a, P a → Takes (k a) ds behind Q) :
    Takes (p >>= k) ds behind Q := h.bind hk

/-- A last step that reads nothing more. -/
theorem Takes.last (h : Takes p cs behind P) (hk : ∀ a, P a → Takes (k a) [] behind Q) :
    Takes (p >>= k) cs behind Q := by
  rw [← List.append_nil cs]
  exact h.bind hk

theorem Takes.orElse_left (h : Takes p cs behind P) : Takes (p <|> q) cs behind P := by
  intro offset
  obtain ⟨a, offset', hp, ha⟩ := h offset
  refine ⟨a, offset', ?_, ha⟩
  rw [orElse_apply, hp]
  rfl

theorem Takes.orElse_right (hp : Refuses p (cs ++ behind)) (h : Takes q cs behind P) :
    Takes (p <|> q) cs behind P := by
  intro offset
  obtain ⟨a, offset', hq, ha⟩ := h offset
  refine ⟨a, offset', ?_, ha⟩
  rw [orElse_apply, hp offset, hq]
  rfl

/-! ## Refusing -/

theorem Refuses.orElse (hp : Refuses p text) (hq : Refuses q text) : Refuses (p <|> q) text := by
  intro offset
  rw [orElse_apply, hp offset, hq offset]
  rfl

theorem Refuses.bind (h : Refuses p text) : Refuses (p >>= k) text := by
  intro offset
  rw [bind_apply, h offset]
  rfl

/-- A scan fails where its first step gets on and its second does not. -/
theorem Takes.bind_refuses (h : Takes p cs behind P) (hk : ∀ a, P a → Refuses (k a) behind) :
    Refuses (p >>= k) (cs ++ behind) := by
  intro offset
  obtain ⟨a, middle, hp, ha⟩ := h offset
  rw [bind_apply, hp]
  exact hk a ha middle

theorem Takes.skip_refuses (h : Takes p [] text P) (hk : ∀ a, P a → Refuses (k a) text) :
    Refuses (p >>= k) text := Takes.bind_refuses h hk

/-! ## Single characters -/

theorem takes_atEnd : Takes atEnd [] [] fun _ => True := fun offset => ⟨(), offset, rfl, trivial⟩

theorem takes_peek? : Takes peek? [] text (· = text.head?) := fun offset => ⟨_, offset, rfl, rfl⟩

theorem takes_satisfy {test : Char → Bool} {c : Char} (h : test c = true) :
    Takes (satisfy test) [c] behind (· = c) := by
  intro offset
  refine ⟨c, offset + c.utf8Size, ?_, rfl⟩
  unfold satisfy
  simp only [List.singleton_append, h, if_true]

theorem refuses_satisfy {test : Char → Bool} (h : ∀ c ∈ text.head?, test c = false) :
    Refuses (satisfy test) text := by
  intro offset
  unfold satisfy
  cases text with
  | nil => rfl
  | cons c rest =>
    simp only [h c rfl]
    rfl

theorem takes_char (c : Char) : Takes (char c) [c] behind fun _ => True := by
  have hone : Takes (satisfy (· == c)) [c] behind (· = c) := takes_satisfy BEq.rfl
  exact hone.last fun _ _ => takes_pure trivial

theorem refuses_char {c : Char} (h : text.head? ≠ some c) : Refuses (char c) text := by
  apply Refuses.bind
  apply refuses_satisfy
  intro d hd
  rw [beq_eq_false_iff_ne]
  rintro rfl
  exact h hd

/-- A text that begins otherwise is not read as a given one. -/
theorem refuses_literal {s : String} {c : Char} {more : List Char} (hs : s.toList = c :: more)
    (h : text.head? ≠ some c) : Refuses (literal s) text := by
  unfold literal
  rw [hs]
  exact Refuses.bind (refuses_char h)

/-- A text whose second character is otherwise is not read as a given one. -/
theorem refuses_literal_of_second {s : String} {c d : Char} {more : List Char}
    (hs : s.toList = c :: d :: more) (h : ∀ rest, text = c :: rest → rest.head? ≠ some d) :
    Refuses (literal s) text := by
  by_cases hc : text.head? = some c
  · obtain ⟨rest, rfl⟩ := List.head?_eq_some_iff.mp hc
    unfold literal
    rw [hs]
    exact (takes_char c).bind_refuses fun _ _ => Refuses.bind (refuses_char (h rest rfl))
  · exact refuses_literal hs hc

/-! ## Options and repetitions -/

theorem takes_optional?_none (h : Refuses p behind) : Takes (optional? p) [] behind (· = none) := by
  have hsome : Refuses (some <$> p) behind := by
    intro offset
    rw [map_apply, h offset]
    rfl
  exact Takes.orElse_right hsome (takes_pure rfl)

theorem takes_optional?_some (h : Takes p cs behind P) :
    Takes (optional? p) cs behind fun x => ∃ a, x = some a ∧ P a := by
  apply Takes.orElse_left
  intro offset
  obtain ⟨a, offset', hp, ha⟩ := h offset
  refine ⟨some a, offset', ?_, a, rfl, ha⟩
  rw [map_apply, hp]
  rfl

theorem takes_upTo_nil (n : Nat) (h : Refuses p behind) : Takes (upTo n p) [] behind (· = []) := by
  cases n with
  | zero => exact takes_pure rfl
  | succ n =>
    rw [upTo]
    apply Takes.skip (takes_optional?_none h)
    rintro x rfl
    exact takes_pure rfl

theorem takes_upTo_cons {n : Nat} {R : List α → Prop} (h : Takes p cs (ds ++ behind) P)
    (hmore : Takes (upTo n p) ds behind R) :
    Takes (upTo (n + 1) p) (cs ++ ds) behind fun l => ∃ a as, l = a :: as ∧ P a ∧ R as := by
  rw [upTo]
  apply Takes.bind (takes_optional?_some h)
  rintro x ⟨a, rfl, ha⟩
  exact hmore.last fun as has => takes_pure ⟨a, as, rfl, ha, has⟩

theorem takes_many_none (h : Refuses p behind) : Takes (many p) [] behind (· = []) :=
  takes_upTo_nil behind.length h

theorem takes_separated_one {separator : Scan Unit} (h : Takes p cs behind P)
    (hstop : Refuses separator behind) :
    Takes (separated p separator) cs behind fun l => ∃ a, l = [a] ∧ P a := by
  refine h.last fun a ha => ?_
  refine Takes.skip (takes_many_none (Refuses.bind hstop)) fun others hothers => ?_
  rw [hothers]
  exact takes_pure ⟨a, rfl, ha⟩

/-- A repetition reads all the texts that come, each of which is something, where a condition on what
stands behind a text is kept up from the back to the front. -/
theorem takes_many {γ : Type} {written : γ → List Char} {R : γ → α → Prop}
    {C : List Char → Prop} {xs : List γ}
    (hone : ∀ x ∈ xs, ∀ after, C after → Takes p (written x) after (R x))
    (hclear : ∀ x ∈ xs, ∀ after, C after → C (written x ++ after))
    (hsome : ∀ x ∈ xs, written x ≠ []) (hstop : Refuses p behind) (hbehind : C behind) :
    Takes (many p) (xs.flatMap written) behind (List.Forall₂ R xs) := by
  -- The bound of the repetition is the length of the text, so it is at least the number of items.
  have hupTo : ∀ n, (xs.flatMap written).length ≤ n →
      Takes (upTo n p) (xs.flatMap written) behind (List.Forall₂ R xs)
        ∧ C (xs.flatMap written ++ behind) := by
    induction xs with
    | nil => exact fun n _ => ⟨(takes_upTo_nil n hstop).mono fun _ h => h ▸ .nil, hbehind⟩
    | cons x xs ih =>
      intro n hn
      rw [List.flatMap_cons, List.length_append] at hn
      have hpos := List.length_pos_iff.mpr (hsome x List.mem_cons_self)
      obtain ⟨m, rfl⟩ : ∃ m, n = m + 1 := ⟨n - 1, by omega⟩
      obtain ⟨hmore, hafter⟩ := ih (fun y hy => hone y (List.mem_cons_of_mem x hy))
        (fun y hy => hclear y (List.mem_cons_of_mem x hy))
        (fun y hy => hsome y (List.mem_cons_of_mem x hy)) m (by omega)
      rw [List.flatMap_cons, List.append_assoc]
      refine ⟨?_, hclear x List.mem_cons_self _ hafter⟩
      refine (takes_upTo_cons (hone x List.mem_cons_self _ hafter) hmore).mono ?_
      rintro l ⟨a, as, rfl, ha, has⟩
      exact .cons ha has
  have hbound : (xs.flatMap written).length ≤ (xs.flatMap written ++ behind).length := by
    rw [List.length_append]
    omega
  exact (hupTo _ hbound).1

/-- A repetition of single characters reads all of them that come. -/
theorem takes_many_chars {p : Scan Char} (hone : ∀ c ∈ cs, ∀ after, Takes p [c] after (c = ·))
    (hstop : Refuses p behind) : Takes (many p) cs behind (· = cs) := by
  have hmany : Takes (many p) (cs.flatMap fun c => [c]) behind (List.Forall₂ (· = ·) cs) :=
    takes_many (C := fun _ => True) (fun c hc after _ => hone c hc after)
      (fun _ _ _ _ => trivial) (fun _ _ => List.cons_ne_nil _ _) hstop trivial
  rw [List.flatMap_singleton'] at hmany
  exact hmany.mono fun l hl => (List.forall₂_eq_eq_eq ▸ hl : cs = l).symm

theorem takes_run {test : Char → Bool} (hall : ∀ c ∈ cs, test c = true)
    (hstop : ∀ c ∈ behind.head?, test c = false) : Takes (run test) cs behind (· = cs) :=
  takes_many_chars (fun c hc _ => (takes_satisfy (hall c hc)).mono fun _ => Eq.symm)
    (refuses_satisfy hstop)

theorem not_blank_of_head_ne (hspace : text.head? ≠ some ' ') (htab : text.head? ≠ some '\t') :
    ∀ c ∈ text.head?, isBlank c = false := by
  intro c hc
  rw [isBlank, Bool.or_eq_false_iff, beq_eq_false_iff_ne, beq_eq_false_iff_ne]
  constructor
  · rintro rfl
    exact hspace hc
  · rintro rfl
    exact htab hc

theorem takes_blanks (hall : ∀ c ∈ cs, isBlank c = true)
    (hstop : ∀ c ∈ behind.head?, isBlank c = false) : Takes blanks cs behind fun _ => True :=
  (takes_run hall hstop).last fun _ _ => takes_pure trivial

theorem takes_no_blanks (h : ∀ c ∈ behind.head?, isBlank c = false) :
    Takes blanks [] behind fun _ => True :=
  takes_blanks (fun _ hc => absurd hc List.not_mem_nil) h

theorem takes_located (h : Takes p cs behind P) :
    Takes (located p) cs behind fun x => P x.1 := by
  intro offset
  obtain ⟨a, offset', hp, ha⟩ := h offset
  refine ⟨(a, ⟨offset, offset'⟩), offset', ?_, ha⟩
  show (p ⟨cs ++ behind, offset⟩).bind _ = _
  rw [hp]
  rfl

/-! ## Keeping -/

/-- What the scan leaves of a text of a certain kind is of this kind. -/
def Keeps (p : Scan α) (C : List Char → Prop) : Prop :=
  ∀ c a c', C c.rest → p c = some (a, c') → C c'.rest

variable {C : List Char → Prop}

theorem keeps_pure (a : α) : Keeps (pure a) C := by
  rintro c _ _ h ⟨⟩
  exact h

theorem keeps_failure : Keeps (failure : Scan α) C := nofun

theorem Keeps.bind (hp : Keeps p C) (hk : ∀ a, Keeps (k a) C) : Keeps (p >>= k) C := by
  intro c b c' h hb
  rw [bind_apply, Option.bind_eq_some_iff] at hb
  obtain ⟨⟨a, middle⟩, ha, hb⟩ := hb
  exact hk a middle b c' (hp c a middle h ha) hb

theorem keeps_times (n : Nat) (hp : Keeps p C) : Keeps (times n p) C := by
  induction n with
  | zero => exact keeps_pure []
  | succ n ih => exact hp.bind fun _ => ih.bind fun _ => keeps_pure _

/-- A scan fails on a text whose kind its first step keeps and its second step refuses. -/
theorem Keeps.refuses (hp : Keeps p C) (hk : ∀ a rest, C rest → Refuses (k a) rest) (h : C text) :
    Refuses (p >>= k) text := by
  intro offset
  rw [bind_apply]
  cases ha : p ⟨text, offset⟩ with
  | none => rfl
  | some x => exact hk x.1 x.2.rest (hp _ _ _ h ha) x.2.offset

/-! ## Yielding -/

theorem yields_pure {a : α} (h : P a) : Yields (pure a) P := by
  intro c b c' hb
  cases hb
  exact h

theorem Yields.bind (hp : Yields p P) (hk : ∀ a, P a → Yields (k a) Q) : Yields (p >>= k) Q := by
  intro c b c' hb
  rw [bind_apply, Option.bind_eq_some_iff] at hb
  obtain ⟨⟨a, middle⟩, ha, hb⟩ := hb
  exact hk a (hp c a middle ha) middle b c' hb

theorem yields_anything (p : Scan α) : Yields p fun _ => True := fun _ _ _ _ => trivial

theorem Yields.after (hk : ∀ a, Yields (k a) Q) : Yields (p >>= k) Q :=
  (yields_anything p).bind fun a _ => hk a

theorem Yields.orElse (hp : Yields p P) (hq : Yields q P) : Yields (p <|> q) P := by
  intro c a c' ha
  rw [orElse_apply] at ha
  cases hfirst : p c with
  | some x =>
    rw [hfirst] at ha
    exact hp c a c' (hfirst.trans ha)
  | none =>
    rw [hfirst] at ha
    exact hq c a c' ha

theorem yields_failure : Yields (failure : Scan α) P := nofun

theorem yields_optional? (hp : Yields p P) : Yields (optional? p) fun x => ∀ a ∈ x, P a := by
  refine Yields.orElse ?_ (yields_pure nofun)
  intro c x c' hx
  rw [map_apply, Option.map_eq_some_iff] at hx
  obtain ⟨⟨a, c''⟩, ha, heq⟩ := hx
  cases heq
  rintro b ⟨⟩
  exact hp c a c'' ha

theorem yields_upTo (n : Nat) (hp : Yields p P) : Yields (upTo n p) fun l => ∀ a ∈ l, P a := by
  induction n with
  | zero => exact yields_pure nofun
  | succ n ih =>
    rw [upTo]
    refine Yields.bind (yields_optional? hp) fun x hx => ?_
    cases x with
    | none => exact yields_pure nofun
    | some a =>
      refine Yields.bind ih fun as has => yields_pure ?_
      exact List.forall_mem_cons.mpr ⟨hx a rfl, has⟩

theorem yields_many (hp : Yields p P) : Yields (many p) fun l => ∀ a ∈ l, P a :=
  fun c => yields_upTo c.rest.length hp c

theorem yields_located (hp : Yields p P) : Yields (located p) fun x => P x.1 :=
  Yields.after fun _ => Yields.bind hp fun _ ha => Yields.after fun _ => yields_pure ha

end FileWatch.Toml.Scan
