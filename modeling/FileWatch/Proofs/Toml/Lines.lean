import FileWatch.Proofs.Toml.Digits
import FileWatch.Proofs.Toml.Document

/-!
# Documents of plain lines

A plain line is `name = number`, with a bare name and the decimal digits of a number.  A text of plain
lines with different names is a document, and its entries are the lines (`read?_plain`).

Most of the work is to see that the grammar reads nothing else into such a line.  Behind the digits of a
number stand more digits or the end of the line (`DigitsToLineEnd`), so the scans of dates, times,
floating-point numbers and other bases refuse them.  Behind a line stands another name or nothing
(`BareAhead`), so there is no idle line between two of them.
-/

namespace FileWatch.Toml

open Scan

/-! ## Numbers -/

/-- Digits up to the end of the line. -/
def DigitsToLineEnd (text : List Char) : Prop :=
  ∃ ds behind, (∀ c ∈ ds, isDecimal c = true) ∧ text = ds ++ '\n' :: behind

theorem digitsToLineEnd_toDigits (n : Nat) (behind : List Char) :
    DigitsToLineEnd (Nat.toDigits 10 n ++ '\n' :: behind) :=
  ⟨_, behind, fun _ => isDecimal_of_mem_toDigits, rfl⟩

theorem DigitsToLineEnd.head {text : List Char} (h : DigitsToLineEnd text) :
    ∀ c ∈ text.head?, isDecimal c = true ∨ c = '\n' := by
  obtain ⟨ds, behind, hds, rfl⟩ := h
  rintro c hc
  cases ds with
  | nil =>
    cases hc
    exact .inr rfl
  | cons d ds =>
    cases hc
    exact .inl (hds _ List.mem_cons_self)

theorem DigitsToLineEnd.head_ne {text : List Char} (h : DigitsToLineEnd text) {c : Char}
    (hc : isDecimal c = false) (hend : c ≠ '\n') : text.head? ≠ some c := by
  intro hhead
  rcases h.head c hhead with hdigit | hline
  · rw [hc] at hdigit
    cases hdigit
  · exact hend hline

theorem DigitsToLineEnd.tail {c : Char} {text : List Char} (h : DigitsToLineEnd (c :: text))
    (hc : isDecimal c = true) : DigitsToLineEnd text := by
  obtain ⟨ds, behind, hds, htext⟩ := h
  cases ds with
  | nil =>
    cases htext
    cases hc
  | cons d ds =>
    cases htext
    exact ⟨ds, behind, fun x hx => hds x (List.mem_cons_of_mem _ hx), rfl⟩

theorem keeps_digit : Keeps (satisfy isDecimal) DigitsToLineEnd := by
  rintro ⟨rest, offset⟩ a c' h ha
  unfold satisfy at ha
  split at ha
  · rename_i x rest' hrest
    cases hrest
    rw [Option.ite_none_right_eq_some] at ha
    obtain ⟨hx, ⟨⟩⟩ := ha
    exact h.tail hx
  · cases ha

theorem keeps_field (width low high : Nat) : Keeps (field width low high) DigitsToLineEnd := by
  refine (keeps_times width keeps_digit).bind fun ds => ?_
  show Keeps (if _ then _ else _) _
  split
  · exact keeps_pure _
  · exact keeps_failure

/-- A date goes on with a hyphen behind its first digits, a time of day with a colon. -/
theorem DigitsToLineEnd.refuses_moment {text : List Char} (h : DigitsToLineEnd text) :
    Refuses moment text := by
  refine Refuses.orElse (Refuses.bind ?_) ?_
  · exact (keeps_field 4 0 9999).refuses
      (fun _ _ h => Refuses.bind (refuses_char (h.head_ne rfl (by decide)))) h
  · exact (keeps_field 2 0 23).refuses
      (fun _ _ h => Refuses.bind (refuses_char (h.head_ne rfl (by decide)))) h

theorem refuses_verbatim {p : Scan Unit} {text : List Char} (h : Refuses p text) :
    Refuses (verbatim p) text := by
  intro offset
  unfold verbatim
  rw [h offset]
  rfl

theorem DigitsToLineEnd.takes_sign {text : List Char} (h : DigitsToLineEnd text) :
    Takes sign [] text (· = false) := by
  refine Takes.skip (takes_optional?_none (refuses_satisfy ?_)) fun c hc => ?_
  · intro c hc
    rw [Bool.or_eq_false_iff, beq_eq_false_iff_ne, beq_eq_false_iff_ne]
    constructor
    · rintro rfl
      exact h.head_ne rfl (by decide) hc
    · rintro rfl
      exact h.head_ne rfl (by decide) hc
  · rw [hc]
    exact takes_pure rfl

theorem takes_moreDigits {base : Nat} {cs behind : List Char}
    (hall : ∀ c ∈ cs, isDigitOf base c = true) (hstop : isDigitOf base '\n' = false) :
    Takes (moreDigits base) cs ('\n' :: behind) (· = cs) := by
  refine takes_many_chars (fun c hc _ => Takes.orElse_left ?_) (Refuses.orElse ?_ ?_)
  · exact (takes_satisfy (hall c hc)).mono fun _ => Eq.symm
  · refine refuses_satisfy ?_
    rintro _ ⟨⟩
    exact hstop
  · exact Refuses.bind (refuses_char (by rw [List.head?_cons]; decide))

theorem takes_decimalDigits (n : Nat) (behind : List Char) :
    Takes decimalDigits (Nat.toDigits 10 n) ('\n' :: behind) (· = Nat.toDigits 10 n) := by
  have hall : ∀ c ∈ Nat.toDigits 10 n, isDigitOf 10 c = true :=
    fun c => isDigitOf_of_mem_toDigits (by omega) (by omega)
  rcases Nat.eq_zero_or_pos n with rfl | hpos
  · show Takes decimalDigits ['0'] _ (· = ['0'])
    refine Takes.orElse_right (Refuses.bind (refuses_satisfy ?_)) ?_
    · rintro _ ⟨⟩
      rfl
    · refine (takes_satisfy rfl).last fun d hd => ?_
      rw [hd]
      exact takes_pure rfl
  · obtain ⟨c, cs, hdigits, hc⟩ := toDigits_head hpos
    rw [hdigits] at hall ⊢
    have hfirst : (isDecimal c && c != '0') = true := by
      rw [isDecimal_of_isDigitOf (hall c List.mem_cons_self), Bool.true_and, bne_iff_ne]
      exact hc
    refine Takes.orElse_left ?_
    rw [← List.singleton_append]
    refine (takes_satisfy hfirst).bind fun d hd => ?_
    have hmore : Takes (moreDigits 10) cs ('\n' :: behind) (· = cs) :=
      takes_moreDigits (fun d hd => hall d (List.mem_cons_of_mem c hd)) rfl
    refine hmore.last fun ds hds => ?_
    rw [hd, hds]
    exact takes_pure rfl

/-- A floating-point number has a point or an exponent behind its first digits, or is a word. -/
theorem refuses_float (n : Nat) (behind : List Char) :
    Refuses float (Nat.toDigits 10 n ++ '\n' :: behind) := by
  have hdigits := digitsToLineEnd_toDigits n behind
  refine Refuses.orElse ?_ ?_
  · refine hdigits.takes_sign.skip_refuses fun _ _ => ?_
    refine (takes_decimalDigits n behind).bind_refuses fun _ _ => ?_
    refine Refuses.bind (Refuses.orElse (Refuses.bind (Refuses.bind (refuses_satisfy ?_))) ?_)
    · rintro _ ⟨⟩
      rfl
    · exact Refuses.bind (refuses_char (by rw [List.head?_cons]; decide))
  · refine hdigits.takes_sign.skip_refuses fun _ _ => ?_
    refine Refuses.orElse (Refuses.bind ?_) (Refuses.bind ?_)
    · exact refuses_literal rfl (hdigits.head_ne rfl (by decide))
    · exact refuses_literal rfl (hdigits.head_ne rfl (by decide))

theorem takes_integer {n : Nat} (hn : n < integerLimit) (behind : List Char) :
    Takes integer (Nat.toDigits 10 n) ('\n' :: behind) (· = (n : Int)) := by
  have hdigits := digitsToLineEnd_toDigits n behind
  -- The mark of another base has a letter where the digits have a digit or the line ends.
  have hbased : ∀ (mark : String) (d : Char) (base : Nat), mark.toList = ['0', d] →
      isDecimal d = false → d ≠ '\n' →
      Refuses (basedInteger mark base) (Nat.toDigits 10 n ++ '\n' :: behind) := by
    intro mark d base hmark hd hend
    refine Refuses.bind (refuses_literal_of_second hmark fun rest hrest => ?_)
    rw [hrest] at hdigits
    exact (hdigits.tail rfl).head_ne hd hend
  refine Takes.orElse_right (hbased "0x" 'x' 16 rfl rfl (by decide)) ?_
  refine Takes.orElse_right (hbased "0o" 'o' 8 rfl rfl (by decide)) ?_
  refine Takes.orElse_right (hbased "0b" 'b' 2 rfl rfl (by decide)) ?_
  refine Takes.skip hdigits.takes_sign fun negative hnegative => ?_
  refine (takes_decimalDigits n behind).last fun ds hds => ?_
  rw [hds, hnegative, numeral_toDigits (by omega) (by omega)]
  have hfits : fitting (n : Int) = pure (n : Int) := if_pos (by omega)
  exact hfits ▸ takes_pure rfl

/-- **The digits of a number are read as this number**, if it fits 64 bits. -/
theorem takes_value {n levels : Nat} (hn : n < integerLimit) (behind : List Char) :
    Takes (value (levels + 1)) (Nat.toDigits 10 n) ('\n' :: behind) (· = .integer n) := by
  have hdigits := digitsToLineEnd_toDigits n behind
  have hnumber : Takes ((do return .moment (← verbatim moment)) <|> (do return .float (← float))
      <|> (do return .integer (← integer)) : Scan Value) (Nat.toDigits 10 n) ('\n' :: behind)
      (· = .integer n) := by
    refine Takes.orElse_right (Refuses.bind (refuses_verbatim hdigits.refuses_moment)) ?_
    refine Takes.orElse_right (Refuses.bind (refuses_float n behind)) ?_
    refine (takes_integer hn behind).last fun m hm => ?_
    rw [hm]
    exact takes_pure rfl
  rw [value]
  refine Takes.skip takes_peek? fun c hc => ?_
  have hother : ∀ d, isDecimal d = false → d ≠ '\n' → c ≠ some d :=
    fun d hd hend => hc ▸ hdigits.head_ne hd hend
  split
  · exact absurd rfl (hother '"' rfl (by decide))
  · exact absurd rfl (hother '\'' rfl (by decide))
  · exact absurd rfl (hother '[' rfl (by decide))
  · exact absurd rfl (hother '\x7b' rfl (by decide))
  · exact absurd rfl (hother 't' rfl (by decide))
  · exact absurd rfl (hother 'f' rfl (by decide))
  · exact hnumber

/-! ## Lines -/

/-- A pair that gives a number to a bare name. -/
def Pair.IsPlain (name : String) (n : Nat) (p : Pair) : Prop :=
  ∃ k, p.path = [k] ∧ k.name = name ∧ p.value = .integer n

/-- A name that needs no quotation marks. -/
def IsBare (name : String) : Prop := name.toList ≠ [] ∧ ∀ c ∈ name.toList, isBareKeyChar c = true

instance (name : String) : Decidable (IsBare name) :=
  decidable_of_iff (name.toList ≠ [] ∧ name.toList.all isBareKeyChar = true) (by
    rw [IsBare, List.all_eq_true])

/-- A plain line, up to its end. -/
def plainPair (name : String) (n : Nat) : List Char :=
  (name.toList ++ [' ']) ++ (['='] ++ ([' '] ++ Nat.toDigits 10 n))

/-- A plain line. -/
def plainLine (name : String) (n : Nat) : List Char := plainPair name n ++ ['\n']

/-- A text that goes on with a bare key, or that is at its end. -/
def BareAhead (text : List Char) : Prop := ∀ c ∈ text.head?, isBareKeyChar c = true

theorem BareAhead.head_ne {text : List Char} (h : BareAhead text) {c : Char}
    (hc : isBareKeyChar c = false) : text.head? ≠ some c := by
  intro hhead
  rw [h c hhead] at hc
  cases hc

theorem BareAhead.not_blank {text : List Char} (h : BareAhead text) :
    ∀ c ∈ text.head?, isBlank c = false := not_blank_of_head_ne (h.head_ne rfl) (h.head_ne rfl)

theorem IsBare.ahead {name : String} (h : IsBare name) (behind : List Char) :
    BareAhead (name.toList ++ behind) := by
  obtain ⟨c, cs, hlist⟩ := List.exists_cons_of_ne_nil h.1
  have hall := h.2
  rw [hlist] at hall ⊢
  rintro _ ⟨⟩
  exact hall c List.mem_cons_self

theorem takes_keyName {name : String} (hname : IsBare name) (behind : List Char) :
    Takes keyName name.toList (' ' :: behind) (· = name) := by
  have hahead := hname.ahead (' ' :: behind)
  refine Takes.orElse_right (Refuses.bind (refuses_char (hahead.head_ne rfl))) ?_
  refine Takes.orElse_right (Refuses.bind (refuses_char (hahead.head_ne rfl))) ?_
  obtain ⟨c, cs, hlist⟩ := List.exists_cons_of_ne_nil hname.1
  have hall := hname.2
  rw [hlist] at hall ⊢
  rw [← List.singleton_append]
  refine (takes_satisfy (hall c List.mem_cons_self)).bind fun d hd => ?_
  have hrest : Takes (run isBareKeyChar) cs (' ' :: behind) (· = cs) :=
    takes_run (fun d hd => hall d (List.mem_cons_of_mem c hd)) (by rintro _ ⟨⟩; rfl)
  refine hrest.last fun ds hds => takes_pure ?_
  rw [hd, hds, ← hlist, String.ofList_toList]

theorem takes_key {name : String} (hname : IsBare name) (behind : List Char) :
    Takes key (name.toList ++ [' ']) ('=' :: behind)
      fun path => ∃ k, path = [k] ∧ k.name = name := by
  have hdot : Refuses (char '.') ('=' :: behind) := refuses_char (by simp)
  refine Takes.last (takes_separated_one (P := (·.name = name)) ?_ hdot) ?_
  · refine Takes.skip (takes_no_blanks ?_) fun _ _ => ?_
    · rw [List.append_assoc]
      exact (hname.ahead _).not_blank
    · apply (takes_located (takes_keyName hname _)).bind
      rintro ⟨read, span⟩ hread
      refine (takes_blanks (by simp [isBlank]) ?_).last fun _ _ => takes_pure hread
      rintro _ ⟨⟩
      rfl
  · rintro path ⟨k, rfl, hk⟩
    exact takes_pure ⟨k, rfl, hk⟩

theorem takes_pairOf {name : String} {n levels : Nat} (hname : IsBare name)
    (hn : n < integerLimit) (behind : List Char) :
    Takes (pairOf (value (levels + 1))) (plainPair name n) ('\n' :: behind)
      (Pair.IsPlain name n) := by
  have hdigits := digitsToLineEnd_toDigits n behind
  have hblank := not_blank_of_head_ne (hdigits.head_ne (c := ' ') rfl (by decide))
    (hdigits.head_ne rfl (by decide))
  apply (takes_key hname _).bind
  rintro path ⟨k, hpath, hk⟩
  refine (takes_char '=').bind fun _ _ => ?_
  refine (takes_blanks (by simp [isBlank]) hblank).bind fun _ _ => ?_
  apply (takes_located (takes_value hn behind)).last
  rintro ⟨v, span⟩ hv
  exact takes_pure ⟨k, hpath, hk, hv⟩

theorem takes_lineRest (behind : List Char) : Takes lineRest ['\n'] behind fun _ => True := by
  refine Takes.skip (takes_no_blanks ?_) fun _ _ => ?_
  · rintro _ ⟨⟩
    rfl
  · refine Takes.skip (takes_optional?_none (Refuses.bind (refuses_char ?_))) fun _ _ => ?_
    · rw [List.singleton_append, List.head?_cons]
      decide
    · exact Takes.orElse_left (Takes.orElse_left (takes_char '\n'))

/-- **A plain line is read as what it says.** -/
theorem takes_pair {name : String} {n : Nat} (hname : IsBare name) (hn : n < integerLimit)
    (behind : List Char) : Takes pair (plainLine name n) behind (Pair.IsPlain name n) := by
  refine (takes_pairOf hname hn behind).bind fun p hp => ?_
  exact (takes_lineRest behind).last fun _ _ => takes_pure hp

theorem takes_idleLines {text : List Char} (h : BareAhead text) :
    Takes idleLines [] text fun _ => True := by
  have hidle : Refuses idle text := by
    refine Refuses.orElse (Refuses.orElse ?_ ?_) (Refuses.bind (Refuses.bind ?_))
    · exact refuses_char (h.head_ne rfl)
    · exact refuses_literal rfl (h.head_ne rfl)
    · exact refuses_char (h.head_ne rfl)
  refine Takes.skip (takes_no_blanks h.not_blank) fun _ _ => ?_
  exact Takes.skip (takes_many_none (Refuses.bind hidle)) fun _ _ => takes_pure trivial

/-! ## Texts -/

variable {ls : List (String × Nat)}

/-- The text of some plain lines. -/
def plainText (ls : List (String × Nat)) : List Char := ls.flatMap fun l => plainLine l.1 l.2

theorem bareAhead_plainLine {name : String} (hname : IsBare name) (n : Nat) (behind : List Char) :
    BareAhead (plainLine name n ++ behind) := by
  rw [plainLine, plainPair, List.append_assoc, List.append_assoc, List.append_assoc]
  exact hname.ahead _

theorem bareAhead_plainText (hls : ∀ l ∈ ls, IsBare l.1 ∧ l.2 < integerLimit) :
    BareAhead (plainText ls) := by
  cases ls with
  | nil => exact nofun
  | cons l ls => exact bareAhead_plainLine (hls l List.mem_cons_self).1 l.2 _

theorem takes_pairs (hls : ∀ l ∈ ls, IsBare l.1 ∧ l.2 < integerLimit) :
    Takes pairs (plainText ls) [] (List.Forall₂ (fun l p => Pair.IsPlain l.1 l.2 p) ls) := by
  have hone : ∀ l ∈ ls, ∀ after, BareAhead after →
      Takes (do let p ← pair; idleLines; return p) (plainLine l.1 l.2) after
        (Pair.IsPlain l.1 l.2) := by
    intro l hl after hafter
    obtain ⟨hname, hn⟩ := hls l hl
    refine (takes_pair hname hn after).last fun p hp => ?_
    exact Takes.skip (takes_idleLines hafter) fun _ _ => takes_pure hp
  have hend : Refuses (do let p ← pair; idleLines; return p) [] :=
    Refuses.bind (Refuses.bind (Refuses.bind fun _ => rfl))
  refine Takes.skip (takes_idleLines ?_) fun _ _ => ?_
  · rw [List.append_nil]
    exact bareAhead_plainText hls
  · exact takes_many hone (fun l hl after _ => bareAhead_plainLine (hls l hl).1 l.2 after)
      (fun _ _ => List.concat_ne_nil _ _) hend nofun

theorem takes_sections (hls : ∀ l ∈ ls, IsBare l.1 ∧ l.2 < integerLimit) :
    Takes sections (plainText ls) [] fun x =>
      List.Forall₂ (fun l p => Pair.IsPlain l.1 l.2 p) ls x.1 ∧ x.2 = [] := by
  have hmark : Refuses (char '\uFEFF') (plainText ls ++ []) := by
    rw [List.append_nil]
    exact refuses_char ((bareAhead_plainText hls).head_ne rfl)
  have hheaded : Refuses headed [] := Refuses.bind fun _ => rfl
  refine Takes.skip (takes_optional?_none hmark) fun _ _ => ?_
  refine (takes_pairs hls).last fun ps hps => ?_
  refine Takes.skip (takes_many_none hheaded) fun ss hss => ?_
  exact Takes.skip takes_atEnd fun _ _ => takes_pure ⟨hps, hss⟩

/-- An entry that gives a number to a name. -/
def IsPlainEntry (l : String × Nat) (e : Key × Option Span × Value) : Prop :=
  e.1.name = l.1 ∧ e.2.2 = .integer l.2

theorem names_of_plain {es : Entries} (h : List.Forall₂ IsPlainEntry ls es) :
    es.map (·.1.name) = ls.map (·.1) := by
  induction h with
  | nil => rfl
  | cons he _ ih => rw [List.map_cons, List.map_cons, he.1, ih]

theorem mem_of_plain {es : Entries} (h : List.Forall₂ IsPlainEntry ls es)
    {e : Key × Option Span × Value} (he : e ∈ es) :
    ∃ n, (e.1.name, n) ∈ ls ∧ e.2.2 = .integer n := by
  induction h with
  | nil => cases he
  | @cons l _ ls es hl _ ih =>
    rcases List.mem_cons.mp he with rfl | he
    · rw [hl.1]
      exact ⟨l.2, List.mem_cons_self, hl.2⟩
    · obtain ⟨n, hn, hvalue⟩ := ih he
      exact ⟨n, List.mem_cons_of_mem l hn, hvalue⟩

theorem addPair_plain {es : Entries} {p : Pair} {name : String} {n : Nat} (hp : p.IsPlain name n)
    (hnew : entryNamed? es name = none) :
    ∃ e, IsPlainEntry (name, n) e ∧ addPair es p = some (es ++ [e]) := by
  obtain ⟨k, hpath, rfl, hvalue⟩ := hp
  refine ⟨(k, some p.span, p.value), ⟨rfl, hvalue⟩, ?_⟩
  unfold addPair
  rw [hpath]
  simp [descend, hnew]

theorem addPairs_plain {ps : List Pair}
    (hps : List.Forall₂ (fun l p => Pair.IsPlain l.1 l.2 p) ls ps) (es : Entries)
    (hdistinct : (es.map (·.1.name) ++ ls.map (·.1)).Nodup) :
    ∃ more, List.Forall₂ IsPlainEntry ls more ∧ ps.foldlM addPair es = some (es ++ more) := by
  induction hps generalizing es with
  | nil => exact ⟨[], .nil, by rw [List.append_nil]; rfl⟩
  | @cons l p ls ps hp hps ih =>
    have hnew : entryNamed? es l.1 = none := by
      rw [entryNamed?_eq_none]
      intro hold
      exact (List.nodup_append'.mp hdistinct).2.2 hold List.mem_cons_self
    obtain ⟨e, he, hadd⟩ := addPair_plain hp hnew
    have hrest : ((es ++ [e]).map (·.1.name) ++ ls.map (·.1)).Nodup := by
      rw [List.map_append, List.append_assoc]
      rwa [List.map_cons, ← he.1] at hdistinct
    obtain ⟨more, hmore, hfold⟩ := ih (es ++ [e]) hrest
    refine ⟨e :: more, .cons he hmore, ?_⟩
    rw [List.foldlM_cons, hadd]
    rw [List.append_assoc] at hfold
    exact hfold

/-- **A text of plain lines with different names is a document of these lines.** -/
theorem read?_plain (hls : ∀ l ∈ ls, IsBare l.1 ∧ l.2 < integerLimit)
    (hdistinct : (ls.map (·.1)).Nodup) :
    ∃ es, read? (String.ofList (plainText ls)) = some es ∧ List.Forall₂ IsPlainEntry ls es := by
  obtain ⟨⟨ps, ss⟩, offset, hread, hps, hss⟩ := takes_sections hls 0
  obtain ⟨es, hes, hfold⟩ := addPairs_plain hps [] hdistinct
  refine ⟨es, ?_, hes⟩
  rw [List.append_nil] at hread
  cases hss
  unfold read?
  rw [String.toList_ofList, hread]
  show (ps.foldlM addPair []).bind (fun top => some top) = some es
  rw [hfold]
  rfl

end FileWatch.Toml
