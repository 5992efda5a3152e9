import FileWatch.Path
import Mathlib.Data.List.Basic

/-!
# What the operations on paths say

Paths are byte strings, and what they name are their parts.  Here is what each operation on byte strings
does to the parts: a name below a directory is one part more (`parts_join`), the directory above is one
part less (`parent?_eq_some`), and the clean spelling says the same without saying where it starts
(`parts_normalize`).

All three put slashes between pieces.  A slash parts what stands before it from what stands behind
(`said_append_slash`), and the anchor is looked for in the first piece only (`anchor?_append`).
-/

namespace FileWatch

/-! ## Pieces -/

namespace Part

theorem piece_of_ofPiece? {piece : Bytes} {s : Part} (h : ofPiece? piece = some s) :
    s.piece = piece := by
  unfold ofPiece? at h
  split at h
  · cases h
  split at h
  · rename_i hup
    cases h
    exact hup.symm
  · cases h
    rfl

/-- A part that a piece can say: it is read back from its own piece. -/
structure Plain (s : Part) : Prop where
  read : ofPiece? s.piece = some s
  unslashed : slash ∉ s.piece

theorem Plain.ne_here {s : Part} (plain : s.Plain) : s ≠ .here := by
  rintro rfl
  exact absurd plain.read (by decide)

theorem Plain.ne_root {s : Part} (plain : s.Plain) : s ≠ .root := by
  rintro rfl
  exact absurd plain.read (by decide)

theorem Plain.piece_ne_nil {s : Part} (plain : s.Plain) : s.piece ≠ [] := by
  intro h
  have hread := plain.read
  rw [h] at hread
  cases hread

theorem Plain.piece_ne_dot {s : Part} (plain : s.Plain) : s.piece ≠ [dot] := by
  intro h
  have hread := plain.read
  rw [h] at hread
  cases hread

end Part

namespace Path

/-- A name of an entry: it is not empty, holds no slash, and is none of the two names that stand for
directories. -/
structure IsFileName (name : Bytes) : Prop where
  ne_nil : name ≠ []
  unslashed : slash ∉ name
  ne_dot : name ≠ [dot]
  ne_up : name ≠ [dot, dot]

theorem IsFileName.ofPiece? {name : Bytes} (h : IsFileName name) :
    Part.ofPiece? name = some (.name name) := by
  unfold Part.ofPiece?
  rw [if_neg (by simp [h.ne_nil, h.ne_dot]), if_neg h.ne_up]

theorem isFileName_of_plain {name : Bytes} (plain : (Part.name name).Plain) : IsFileName name where
  ne_nil := plain.piece_ne_nil
  unslashed := plain.unslashed
  ne_dot := plain.piece_ne_dot
  ne_up := by
    intro h
    have hread := plain.read
    rw [show (Part.name name).piece = [dot, dot] from h] at hread
    cases hread

/-- What some bytes say behind the anchor. -/
def said (bytes : Bytes) : List Part := (bytes.splitOn slash).filterMap Part.ofPiece?

theorem parts_eq (p : Path) : p.parts = p.anchor?.toList ++ said p.body := rfl

theorem said_nil : said [] = [] := rfl

theorem said_append_slash (xs ys : Bytes) : said (xs ++ slash :: ys) = said xs ++ said ys := by
  unfold said
  rw [List.splitOn_append_cons_self, List.filterMap_append]

theorem said_intercalate {pieces : List Bytes} (h : ∀ x ∈ pieces, slash ∉ x) :
    said ([slash].intercalate pieces) = pieces.filterMap Part.ofPiece? := by
  cases pieces with
  | nil => rfl
  | cons x rest =>
    unfold said
    rw [List.splitOn_intercalate slash h (List.cons_ne_nil x rest)]

theorem notMem_of_mem_splitOn {bytes piece : Bytes} (h : piece ∈ bytes.splitOn slash) :
    slash ∉ piece := by
  induction bytes generalizing piece with
  | nil =>
    rw [List.splitOn_nil, List.mem_singleton] at h
    rw [h]
    exact List.not_mem_nil
  | cons b rest ih =>
    rw [List.splitOn_cons_eq_if_modifyHead] at h
    split at h
    · rcases List.mem_cons.mp h with rfl | h
      · exact List.not_mem_nil
      · exact ih h
    · rename_i hb
      cases hsplit : rest.splitOn slash with
      | nil => exact absurd hsplit (List.splitOn_ne_nil slash rest)
      | cons first more =>
        rw [hsplit] at h ih
        rcases List.mem_cons.mp h with rfl | h
        · intro hmem
          rcases List.mem_cons.mp hmem with hmem | hmem
          · exact hb (by rw [← hmem]; exact BEq.rfl)
          · exact ih List.mem_cons_self hmem
        · exact ih (List.mem_cons_of_mem first h)

theorem plain_of_mem_said {bytes : Bytes} {s : Part} (h : s ∈ said bytes) : s.Plain := by
  obtain ⟨piece, hmem, hread⟩ := List.mem_filterMap.mp h
  have hpiece := Part.piece_of_ofPiece? hread
  exact ⟨hpiece ▸ hread, hpiece ▸ notMem_of_mem_splitOn hmem⟩

/-- Plain parts are read back from their pieces. -/
theorem said_pieces {steps : List Part} (plain : ∀ s ∈ steps, s.Plain) :
    said ([slash].intercalate (steps.map Part.piece)) = steps := by
  rw [said_intercalate]
  · rw [List.filterMap_map]
    induction steps with
    | nil => rfl
    | cons s rest ih =>
      rw [List.filterMap_cons, Function.comp_apply, (plain s List.mem_cons_self).read,
        ih fun s hs => plain s (List.mem_cons_of_mem _ hs)]
  · intro x hx
    obtain ⟨s, hs, rfl⟩ := List.mem_map.mp hx
    exact (plain s hs).unslashed

/-! ## The anchor -/

theorem anchor?_append {b ys : Bytes} (hb : b ≠ [])
    (h : b = [dot] → ys = [] ∨ ys.head? = some slash) :
    (⟨b ++ ys⟩ : Path).anchor? = (⟨b⟩ : Path).anchor? := by
  cases b with
  | nil => exact absurd rfl hb
  | cons c rest =>
    unfold anchor?
    simp only [List.cons_append]
    cases rest with
    | cons d rest => simp
    | nil =>
      by_cases hdot : c = dot
      · subst hdot
        simp [h rfl]
      · simp [hdot]

theorem body_append {b ys : Bytes} (hb : b ≠ [])
    (h : b = [dot] → ys = [] ∨ ys.head? = some slash) :
    (⟨b ++ ys⟩ : Path).body = (⟨b⟩ : Path).body ++ ys := by
  unfold body
  rw [anchor?_append hb h]
  split
  · exact List.drop_append_of_le_length (List.length_pos_iff.mpr hb)
  · rfl

/-- A slash behind some bytes leaves what they say as it is. -/
theorem parts_append_slash {b : Bytes} (hb : b ≠ []) (ys : Bytes) :
    (⟨b ++ slash :: ys⟩ : Path).parts = (⟨b⟩ : Path).parts ++ said ys := by
  have h : b = [dot] → slash :: ys = [] ∨ (slash :: ys).head? = some slash := fun _ => .inr rfl
  rw [parts_eq, parts_eq, anchor?_append hb h, body_append hb h, said_append_slash,
    List.append_assoc]

theorem parts_slash_cons (ys : Bytes) : (⟨slash :: ys⟩ : Path).parts = .root :: said ys := rfl

theorem parts_of_anchor?_none {b : Bytes} (h : (⟨b⟩ : Path).anchor? = none) :
    (⟨b⟩ : Path).parts = said b := by
  rw [parts_eq, body, h]
  rfl

/-! ## Names below a directory -/

theorem anchor?_eq_none {piece : Bytes} (hnil : piece ≠ []) (unslashed : slash ∉ piece)
    (hdot : piece ≠ [dot]) : (⟨piece⟩ : Path).anchor? = none := by
  cases piece with
  | nil => exact absurd rfl hnil
  | cons c rest =>
    have hslash : c ≠ slash := by
      rintro rfl
      exact unslashed List.mem_cons_self
    unfold Path.anchor?
    simp only
    rw [if_neg hslash, if_neg]
    rintro ⟨rfl, hrest | hrest⟩
    · exact hdot (by rw [hrest])
    · exact unslashed (List.mem_cons_of_mem _ (List.mem_of_head? hrest))

theorem IsFileName.said {name : Bytes} (h : IsFileName name) : said name = [.name name] := by
  unfold Path.said
  rw [List.splitOn_eq_singleton h.unslashed, List.filterMap_cons, h.ofPiece?, List.filterMap_nil]

/-- **A name below a directory is one part more.** -/
theorem parts_join (base : Path) {name : Bytes} (h : IsFileName name) :
    (base.join name).parts = base.parts ++ [.name name] := by
  have hhead : name.head? ≠ some slash := fun hhead => h.unslashed (List.mem_of_head? hhead)
  unfold join
  rw [if_neg hhead]
  by_cases hnil : base.bytes = []
  · have hbase : base = ⟨[]⟩ := by rw [← hnil]
    rw [if_pos (.inl hnil), hbase]
    exact (parts_of_anchor?_none (anchor?_eq_none h.ne_nil h.unslashed h.ne_dot)).trans h.said
  · by_cases hlast : base.bytes.getLast? = some slash
    · obtain ⟨b, hb⟩ := List.getLast?_eq_some_iff.mp hlast
      have hbase : base = ⟨b ++ [slash]⟩ := by rw [← hb]
      rw [if_pos (.inr hlast), hb, List.append_assoc, hbase]
      by_cases hempty : b = []
      · subst hempty
        exact congrArg (Part.root :: ·) h.said
      · exact (parts_append_slash hempty name).trans (by
          rw [parts_append_slash hempty, said_nil, List.append_nil, h.said])
    · rw [if_neg (by simp [hnil, hlast])]
      exact (parts_append_slash hnil name).trans (by rw [h.said])

/-! ## Clean spellings -/

theorem anchor?_cases (p : Path) :
    p.anchor? = none ∨ p.anchor? = some .root ∨ p.anchor? = some .here := by
  unfold anchor?
  cases p.bytes with
  | nil => exact .inl rfl
  | cons c rest =>
    simp only
    split
    · exact .inr (.inl rfl)
    split
    · exact .inr (.inr rfl)
    · exact .inl rfl

/-- What a path says besides where it starts. -/
def proper (p : Path) : List Part := p.parts.filter (· ≠ .here)

/-- Only the anchor can say where a path starts. -/
theorem proper_eq_append (p : Path) :
    p.proper = p.anchor?.toList.filter (· ≠ .here) ++ said p.body := by
  have hsaid : (said p.body).filter (· ≠ .here) = said p.body := by
    apply List.filter_eq_self.mpr
    intro s hs
    exact decide_eq_true (plain_of_mem_said hs).ne_here
  rw [proper, parts_eq, List.filter_append, hsaid]

/-- Of it only the first part can be the root, and the others are plain. -/
theorem proper_eq (p : Path) : ∃ steps : List Part, (∀ s ∈ steps, s.Plain) ∧
    (p.proper = steps ∨ p.proper = .root :: steps) := by
  refine ⟨said p.body, fun s hs => plain_of_mem_said hs, ?_⟩
  rw [proper_eq_append]
  rcases p.anchor?_cases with h | h | h
  · rw [h]
    exact .inl rfl
  · rw [h]
    exact .inr rfl
  · rw [h]
    exact .inl rfl

theorem anchor?_pieces {steps : List Part} (plain : ∀ s ∈ steps, s.Plain) :
    (⟨[slash].intercalate (steps.map Part.piece)⟩ : Path).anchor? = none := by
  cases steps with
  | nil => rfl
  | cons s rest =>
    have hs := plain s List.mem_cons_self
    have hfirst := anchor?_eq_none hs.piece_ne_nil hs.unslashed hs.piece_ne_dot
    cases rest with
    | nil =>
      rw [List.map_singleton, List.intercalate_singleton]
      exact hfirst
    | cons t rest =>
      rw [List.map_cons, List.map_cons, List.intercalate_cons_of_ne_nil (List.cons_ne_nil _ _),
        List.append_assoc, anchor?_append hs.piece_ne_nil fun h => absurd h hs.piece_ne_dot]
      exact hfirst

theorem normalize_of_nil {p : Path} (h : p.proper = []) : p.normalize = ⟨[dot]⟩ := by
  unfold proper at h
  unfold normalize
  rw [h]

theorem normalize_of_root {p : Path} {steps : List Part} (h : p.proper = .root :: steps) :
    p.normalize = ⟨slash :: [slash].intercalate (steps.map Part.piece)⟩ := by
  unfold proper at h
  unfold normalize
  rw [h]

theorem normalize_of_plain {p : Path} {s : Part} {steps : List Part} (h : p.proper = s :: steps)
    (hs : s.Plain) : p.normalize = ⟨[slash].intercalate ((s :: steps).map Part.piece)⟩ := by
  unfold proper at h
  unfold normalize
  rw [h]
  cases s with
  | root => exact absurd rfl hs.ne_root
  | here | up | name => rfl

/-- **A clean spelling says the same**, except where the path starts; and what says nothing else is
spelled by a dot. -/
theorem parts_normalize (p : Path) :
    p.normalize.parts = if p.proper = [] then [.here] else p.proper := by
  obtain ⟨steps, plain, hproper⟩ := p.proper_eq
  rcases hproper with hproper | hproper
  · rw [hproper]
    cases steps with
    | nil =>
      rw [normalize_of_nil hproper]
      rfl
    | cons s rest =>
      rw [if_neg (List.cons_ne_nil s rest), normalize_of_plain hproper (plain s List.mem_cons_self)]
      exact (parts_of_anchor?_none (anchor?_pieces plain)).trans (said_pieces plain)
  · rw [hproper, if_neg (List.cons_ne_nil _ _), normalize_of_root hproper, parts_slash_cons,
      said_pieces plain]

theorem parts_normalize_join (base : Path) {name : Bytes} (h : IsFileName name) :
    (base.join name).normalize.parts = base.proper ++ [.name name] := by
  have hproper : (base.join name).proper = base.proper ++ [.name name] := by
    unfold proper
    rw [base.parts_join h, List.filter_append]
    rfl
  rw [parts_normalize, hproper, if_neg (List.append_ne_nil_of_right_ne_nil _ (List.cons_ne_nil _ _))]

/-- A path in its clean spelling. -/
def IsNormal (p : Path) : Prop := p.normalize = p

/-- The clean spelling depends on what is said besides where it starts. -/
theorem normalize_of_proper_eq {p q : Path} (h : p.proper = q.proper) : p.normalize = q.normalize := by
  unfold proper at h
  unfold normalize
  rw [h]

theorem normalize_congr {p q : Path} (h : p.parts = q.parts) : p.normalize = q.normalize := by
  apply normalize_of_proper_eq
  unfold proper
  rw [h]

/-- Cleaning leaves what is said besides where it starts. -/
theorem proper_normalize (p : Path) : p.normalize.proper = p.proper := by
  rw [proper, parts_normalize]
  split
  · rename_i hnil
    rw [hnil]
    rfl
  · rw [proper, List.filter_filter]
    simp only [Bool.and_self]

theorem normalize_eq_iff {p q : Path} : p.normalize = q.normalize ↔ p.proper = q.proper := by
  constructor
  · intro h
    rw [← p.proper_normalize, h, q.proper_normalize]
  · exact normalize_of_proper_eq

theorem isNormal_normalize (p : Path) : p.normalize.IsNormal :=
  normalize_of_proper_eq p.proper_normalize

/-- So paths in their clean spelling are told apart by their parts. -/
theorem IsNormal.eq_of_beq {p q : Path} (hp : p.IsNormal) (hq : q.IsNormal)
    (h : (p == q) = true) : p = q := by
  rw [← hp, ← hq, normalize_congr (beq_iff.mp h)]

theorem IsNormal.parts_ne_nil {p : Path} (hp : p.IsNormal) : p.parts ≠ [] := by
  have hparts := p.parts_normalize
  rw [hp] at hparts
  rw [hparts]
  split
  · exact List.cons_ne_nil _ _
  · rename_i hne
    exact hne

/-- A path in its clean spelling says where it starts only if it says nothing else. -/
theorem IsNormal.proper_eq {p : Path} (hp : p.IsNormal) (hdot : p ≠ ⟨[dot]⟩) :
    p.proper = p.parts := by
  have hparts := p.parts_normalize
  rw [hp] at hparts
  split at hparts
  · rename_i hnil
    exact absurd (hp.symm.trans (normalize_of_nil hnil)) hdot
  · exact hparts.symm

/-! ## The directory above -/

/-- The bytes before the body. -/
def lead (p : Path) : Bytes := if p.anchor?.isSome then p.bytes.take 1 else []

theorem lead_append_body (p : Path) : p.lead ++ p.body = p.bytes := by
  unfold lead body
  split
  · exact List.take_append_drop 1 p.bytes
  · rfl

theorem parts_lead (p : Path) : (⟨p.lead⟩ : Path).parts = p.anchor?.toList := by
  obtain ⟨bytes⟩ := p
  unfold lead
  cases bytes with
  | nil => rfl
  | cons c rest =>
    by_cases hslash : c = slash
    · subst hslash
      rfl
    · by_cases hhere : c = dot ∧ (rest = [] ∨ rest.head? = some slash)
      · have hanchor : (⟨c :: rest⟩ : Path).anchor? = some .here := by
          unfold anchor?
          simp only
          rw [if_neg hslash, if_pos hhere]
        rw [hanchor, hhere.1]
        rfl
      · have hanchor : (⟨c :: rest⟩ : Path).anchor? = none := by
          unfold anchor?
          simp only
          rw [if_neg hslash, if_neg hhere]
        rw [hanchor]
        rfl

theorem intercalate_append {xs ys : List Bytes} (hxs : xs ≠ []) (hys : ys ≠ []) :
    [slash].intercalate (xs ++ ys) = [slash].intercalate xs ++ slash :: [slash].intercalate ys := by
  induction xs with
  | nil => exact absurd rfl hxs
  | cons x rest ih =>
    cases rest with
    | nil =>
      rw [List.singleton_append, List.intercalate_cons_of_ne_nil hys, List.intercalate_singleton,
        List.append_assoc]
      rfl
    | cons x' rest =>
      have hrest : x' :: rest ++ ys ≠ [] := List.cons_ne_nil _ _
      rw [List.cons_append, List.intercalate_cons_of_ne_nil hrest,
        List.intercalate_cons_of_ne_nil (List.cons_ne_nil _ _), ih (List.cons_ne_nil _ _),
        List.append_assoc, List.append_assoc, List.append_assoc]

/-- To cut a path at a slash is to cut what it says. -/
theorem parts_cut {p : Path} {kept behind : List Bytes} (hpieces : p.pieces = kept ++ behind)
    (hbehind : behind ≠ []) : (⟨p.lead ++ [slash].intercalate kept⟩ : Path).parts
      = p.anchor?.toList ++ kept.filterMap Part.ofPiece? := by
  have hsaid : said ([slash].intercalate kept) = kept.filterMap Part.ofPiece? := by
    apply said_intercalate
    intro x hx
    have hmem : x ∈ p.body.splitOn slash := by
      rw [show p.body.splitOn slash = kept ++ behind from hpieces]
      exact List.mem_append_left behind hx
    exact notMem_of_mem_splitOn hmem
  by_cases hkept : kept = []
  · subst hkept
    rw [List.intercalate_nil, List.append_nil, p.parts_lead]
    exact (List.append_nil _).symm
  · have hbody : p.body = [slash].intercalate kept ++ slash :: [slash].intercalate behind := by
      rw [← intercalate_append hkept hbehind, ← hpieces]
      exact (List.intercalate_splitOn slash).symm
    have hbytes : p.bytes
        = p.lead ++ [slash].intercalate kept ++ slash :: [slash].intercalate behind := by
      rw [List.append_assoc, ← hbody, p.lead_append_body]
    generalize hb : p.lead ++ [slash].intercalate kept = b at hbytes ⊢
    by_cases hnil : b = []
    · -- Nothing is left: there was no anchor, and what was kept says nothing.
      rw [hnil, List.append_eq_nil_iff] at hb
      rw [← hsaid, hb.2, ← p.parts_lead, hb.1, hnil]
      rfl
    · have hslash : ∀ ys, b = [dot] → slash :: ys = [] ∨ (slash :: ys).head? = some slash :=
        fun _ _ => .inr rfl
      have hanchor : p.anchor? = (⟨b⟩ : Path).anchor? := by
        rw [← anchor?_append hnil (hslash _), ← hbytes]
      have hbody' : p.body = (⟨b⟩ : Path).body ++ slash :: [slash].intercalate behind := by
        rw [← body_append hnil (hslash _), ← hbytes]
      rw [hbody, List.append_cancel_right_eq] at hbody'
      rw [parts_eq, ← hanchor, ← hbody', hsaid]

theorem filterMap_dropWhile_isVacuous (pieces : List Bytes) :
    (pieces.dropWhile isVacuous).filterMap Part.ofPiece? = pieces.filterMap Part.ofPiece? := by
  induction pieces with
  | nil => rfl
  | cons x rest ih =>
    rw [List.dropWhile_cons]
    split
    · rename_i hvacuous
      rw [ih, List.filterMap_cons, Option.isNone_iff_eq_none.mp hvacuous]
    · rfl

/-- **The directory above is one part less.**  There is one unless the path says nothing or is the
root. -/
theorem parent?_eq (p : Path) : p.parent?.map parts
    = if p.parts = [] ∨ p.parts = [.root] then none else some p.parts.dropLast := by
  have hpieces : p.parts = p.anchor?.toList ++ p.pieces.filterMap Part.ofPiece? := rfl
  unfold parent?
  cases hlast : p.pieces.reverse.dropWhile isVacuous with
  | nil =>
    have hnone : p.pieces.filterMap Part.ofPiece? = [] := by
      rw [← List.reverse_eq_nil_iff, ← List.filterMap_reverse, ← filterMap_dropWhile_isVacuous,
        hlast, List.filterMap_nil]
    rw [hnone, List.append_nil] at hpieces
    rw [hpieces]
    rcases p.anchor?_cases with h | h | h
    · rw [h]
      rfl
    · rw [h]
      rfl
    · rw [h]
      rfl
  | cons last before =>
    -- The last piece that says something, and of those before it all up to the next that does.
    obtain ⟨s, hs⟩ : ∃ s, Part.ofPiece? last = some s := by
      have hsays := List.head?_dropWhile_not isVacuous p.pieces.reverse
      rw [hlast] at hsays
      exact Option.isSome_iff_exists.mp (by simpa [isVacuous] using hsays)
    generalize hkept : (before.dropWhile isVacuous).reverse = kept
    have hsaid : p.pieces.filterMap Part.ofPiece? = kept.filterMap Part.ofPiece? ++ [s] := by
      rw [← hkept, List.filterMap_reverse, filterMap_dropWhile_isVacuous, ← List.reverse_cons,
        ← List.reverse_inj, ← List.filterMap_reverse, List.reverse_reverse,
        ← filterMap_dropWhile_isVacuous, hlast, List.filterMap_cons, hs]
    have hcut : ∃ behind, p.pieces = kept ++ behind ∧ behind ≠ [] := by
      refine ⟨(p.pieces.reverse.takeWhile isVacuous ++ last :: before.takeWhile isVacuous).reverse,
        ?_, by simp⟩
      rw [← hkept, ← List.reverse_append, List.append_assoc, List.cons_append,
        List.takeWhile_append_dropWhile, ← hlast, List.takeWhile_append_dropWhile,
        List.reverse_reverse]
    obtain ⟨behind, hbehind, hne⟩ := hcut
    have hroot : s ≠ .root := by
      rintro rfl
      rw [← Part.piece_of_ofPiece? hs] at hs
      exact absurd hs (by decide)
    rw [hpieces, hsaid, ← List.append_assoc, ← parts_cut hbehind hne, List.dropLast_concat, ← hkept]
    refine (if_neg ?_).symm
    rintro (h | h)
    · exact List.append_ne_nil_of_right_ne_nil _ (List.cons_ne_nil _ _) h
    · have hend := congrArg List.getLast? h
      rw [List.getLast?_concat] at hend
      exact hroot (Option.some.inj hend)

end Path

end FileWatch
