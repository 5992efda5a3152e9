import FileWatch.Proofs.Path.Parts
import FileWatch.Proofs.WatchTable.Widening

/-!
# One spelling for each path

There are many ways to spell a path, and a table of watches is to have one entry for all of them.  So a
path is cleaned before it becomes a key.  Here is what makes the clean spelling a canonical form.

`Agrees` says when two spellings should come to the same key, and looks at the bytes only: both start at
the root or neither does, and what stands between the slashes is the same, once what is empty or a
single dot is left out.  `Clean` says what a clean spelling looks like, and looks at the bytes only as
well.  `normalize` is tied to both: it takes two spellings to one exactly when they agree, and it leaves
a spelling as it is exactly when that is clean (`normalize_eq_iff_agrees`, `isNormal_iff_clean`).

What leads from the one to the other is that a clean spelling is its segments with slashes between them
(`bytes_normalize`), and that the segments are read back from it (`splitOn_normalize`).
-/

namespace FileWatch

namespace Path

/-! ## Segments -/

/-- What stands between the slashes of some bytes, once what is empty or a single dot is left out. -/
def spoken (bytes : Bytes) : List Bytes :=
  (bytes.splitOn slash).filter fun piece => piece ≠ [] ∧ piece ≠ [dot]

/-- The segments of a path, as they are spelled; two dots are a segment. -/
def segments (p : Path) : List Bytes := spoken p.bytes

/-- Two spellings that say the same: both start at the root or neither does, and their segments are the
same. -/
def Agrees (p q : Path) : Prop := p.isAbsolute = q.isAbsolute ∧ p.segments = q.segments

instance (p q : Path) : Decidable (p.Agrees q) := inferInstanceAs (Decidable (_ ∧ _))

theorem spoken_append_slash (xs ys : Bytes) : spoken (xs ++ slash :: ys) = spoken xs ++ spoken ys := by
  unfold spoken
  rw [List.splitOn_append_cons_self, List.filter_append]

theorem mem_spoken_iff {bytes piece : Bytes} :
    piece ∈ spoken bytes ↔ piece ∈ bytes.splitOn slash ∧ piece ≠ [] ∧ piece ≠ [dot] := by
  unfold spoken
  rw [List.mem_filter, decide_eq_true_eq]

/-- What is left out is what says nothing. -/
theorem said_eq_filterMap_spoken (bytes : Bytes) :
    said bytes = (spoken bytes).filterMap Part.ofPiece? := by
  unfold said spoken
  rw [List.filterMap_filter]
  apply List.filterMap_congr
  intro piece _
  by_cases hsays : piece ≠ [] ∧ piece ≠ [dot]
  · rw [if_pos (decide_eq_true hsays)]
  · have hvacuous : piece = [] ∨ piece = [dot] := by
      rw [not_and_or, not_not, not_not] at hsays
      exact hsays
    rw [if_neg (by simpa using hsays), Part.ofPiece?, if_pos hvacuous]

theorem map_piece_said (bytes : Bytes) : (said bytes).map Part.piece = spoken bytes := by
  have hpiece : ∀ piece ∈ spoken bytes,
      (Part.ofPiece? piece).map Part.piece = some piece := by
    intro piece hmem
    obtain ⟨-, hnil, hdot⟩ := mem_spoken_iff.mp hmem
    unfold Part.ofPiece?
    rw [if_neg (by simp [hnil, hdot])]
    split
    · rename_i hup
      rw [hup]
      rfl
    · rfl
  rw [said_eq_filterMap_spoken, List.map_filterMap, List.filterMap_congr hpiece, List.filterMap_some]

/-- An anchor is the first byte, and a dot is one only if it stands alone. -/
theorem bytes_of_anchor? {p : Path} {a : Part} (h : p.anchor? = some a) :
    (a = .root ∧ p.bytes = slash :: p.body) ∨
      (a = .here ∧ p.bytes = dot :: p.body ∧ (p.body = [] ∨ p.body.head? = some slash)) := by
  have hbody : p.body = p.bytes.drop 1 := by
    unfold body
    rw [h]
    rfl
  rw [hbody]
  unfold anchor? at h
  cases hbytes : p.bytes with
  | nil => simp [hbytes] at h
  | cons c rest =>
    simp only [hbytes] at h
    split at h
    · rename_i hslash
      rw [hslash]
      exact .inl ⟨(Option.some.inj h).symm, rfl⟩
    · split at h
      · rename_i hhere
        rw [hhere.1]
        exact .inr ⟨(Option.some.inj h).symm, rfl, hhere.2⟩
      · cases h

theorem isAbsolute_iff (p : Path) : p.isAbsolute = true ↔ p.anchor? = some .root := beq_iff_eq

theorem bytes_of_isAbsolute {p : Path} (h : p.isAbsolute = true) : p.bytes = slash :: p.body := by
  rcases bytes_of_anchor? (p.isAbsolute_iff.mp h) with ⟨-, hbytes⟩ | ⟨hroot, -⟩
  · exact hbytes
  · cases hroot

/-- The anchor is no segment. -/
theorem segments_eq_spoken_body (p : Path) : p.segments = spoken p.body := by
  unfold segments
  cases hanchor : p.anchor? with
  | none =>
    unfold body
    rw [hanchor]
    rfl
  | some a =>
    rcases bytes_of_anchor? hanchor with ⟨-, hbytes⟩ | ⟨-, hbytes, hend | hgoes⟩
    · rw [hbytes]
      exact spoken_append_slash [] p.body
    · rw [hbytes, hend]
      rfl
    · obtain ⟨more, hmore⟩ := List.head?_eq_some_iff.mp hgoes
      rw [hbytes, hmore]
      calc spoken ([dot] ++ slash :: more) = spoken [dot] ++ spoken more := spoken_append_slash _ _
        _ = spoken [] ++ spoken more := rfl
        _ = spoken ([] ++ slash :: more) := (spoken_append_slash _ _).symm

/-- What is said besides where a path starts are the root, if it starts there, and the
segments. -/
theorem proper_eq_segments (p : Path) :
    p.proper = (if p.isAbsolute then [.root] else []) ++ p.segments.filterMap Part.ofPiece? := by
  rw [proper_eq_append, p.segments_eq_spoken_body, ← said_eq_filterMap_spoken]
  congr 1
  unfold isAbsolute
  rcases p.anchor?_cases with h | h | h <;> rw [h] <;> rfl

theorem filter_root_proper (p : Path) : p.proper.filter (· ≠ .root) = said p.body := by
  have hsaid : (said p.body).filter (· ≠ .root) = said p.body := by
    apply List.filter_eq_self.mpr
    intro s hs
    exact decide_eq_true (plain_of_mem_said hs).ne_root
  rw [proper_eq_append, List.filter_append, hsaid]
  rcases p.anchor?_cases with h | h | h <;> rw [h] <;> rfl

theorem mem_root_proper_iff (p : Path) : .root ∈ p.proper ↔ p.isAbsolute = true := by
  have hsaid : .root ∉ said p.body := fun h => (plain_of_mem_said h).ne_root rfl
  rw [proper_eq_append, List.mem_append]
  unfold isAbsolute
  rcases p.anchor?_cases with h | h | h <;> simp [h, hsaid]

/-- **Two spellings come to one exactly when they agree.** -/
theorem normalize_eq_iff_agrees (p q : Path) : p.normalize = q.normalize ↔ p.Agrees q := by
  rw [normalize_eq_iff]
  constructor
  · intro h
    constructor
    · rw [Bool.eq_iff_iff, ← mem_root_proper_iff, ← mem_root_proper_iff, h]
    · rw [segments_eq_spoken_body, segments_eq_spoken_body, ← map_piece_said, ← map_piece_said,
        ← filter_root_proper, ← filter_root_proper, h]
  · intro h
    rw [proper_eq_segments, proper_eq_segments, h.1, h.2]

/-! ## The bytes of a clean spelling -/

/-- **A clean spelling is the segments with slashes between them**, behind the root if the path starts
there.  Where nothing would be left there is a dot. -/
theorem bytes_normalize (p : Path) : p.normalize.bytes =
    if p.isAbsolute then slash :: [slash].intercalate p.segments
    else if p.segments = [] then [dot] else [slash].intercalate p.segments := by
  have hpieces : (said p.body).map Part.piece = p.segments := by
    rw [map_piece_said, p.segments_eq_spoken_body]
  have hproper := p.proper_eq_append
  by_cases hroot : p.anchor? = some .root
  · have hsteps : p.proper = .root :: said p.body := by
      rw [hproper, hroot]
      rfl
    rw [if_pos (p.isAbsolute_iff.mpr hroot), normalize_of_root hsteps, hpieces]
  · have hrelative : p.anchor?.toList.filter (· ≠ .here) = [] := by
      rcases p.anchor?_cases with h | h | h
      · rw [h]
        rfl
      · exact absurd h hroot
      · rw [h]
        rfl
    rw [hrelative, List.nil_append] at hproper
    rw [if_neg (mt p.isAbsolute_iff.mp hroot), ← hpieces]
    cases hsaid : said p.body with
    | nil =>
      rw [hsaid] at hproper
      rw [normalize_of_nil hproper]
      rfl
    | cons s rest =>
      rw [hsaid] at hproper
      have hplain : s.Plain := plain_of_mem_said (hsaid ▸ List.mem_cons_self)
      rw [normalize_of_plain hproper hplain, if_neg (by simp)]

theorem splitOn_slash_cons (ys : Bytes) : (slash :: ys).splitOn slash = [] :: ys.splitOn slash := by
  rw [List.splitOn_cons_eq_if_modifyHead, if_pos BEq.rfl]

/-- The segments are read back from it. -/
theorem splitOn_normalize (p : Path) : p.normalize.bytes.splitOn slash =
    if p.isAbsolute then [] :: (if p.segments = [] then [[]] else p.segments)
    else if p.segments = [] then [[dot]] else p.segments := by
  have hread : p.segments ≠ [] → ([slash].intercalate p.segments).splitOn slash = p.segments := by
    intro hne
    apply List.splitOn_intercalate slash _ hne
    intro piece hmem
    exact notMem_of_mem_splitOn (mem_spoken_iff.mp hmem).1
  rw [bytes_normalize]
  by_cases habsolute : p.isAbsolute = true
  · rw [if_pos habsolute, if_pos habsolute]
    rw [splitOn_slash_cons]
    by_cases hnone : p.segments = []
    · rw [if_pos hnone, hnone]
      rfl
    · rw [if_neg hnone, hread hnone]
  · rw [if_neg habsolute, if_neg habsolute]
    by_cases hnone : p.segments = []
    · rw [if_pos hnone, if_pos hnone]
      rfl
    · rw [if_neg hnone, if_neg hnone, hread hnone]

/-! ## What a clean spelling looks like -/

/-- No slash is idle and no segment is a dot.  The root is one slash, and where nothing is said stands
one dot. -/
structure Clean (p : Path) : Prop where
  ne_nil : p.bytes ≠ []
  undoubled : ¬ [slash, slash] <:+: p.bytes
  untrailed : p.bytes.getLast? = some slash → p.bytes = [slash]
  undotted : [dot] ∈ p.bytes.splitOn slash → p.bytes = [dot]

/-- A slash behind another one, or at the end, leaves an empty piece behind it. -/
theorem nil_mem_tail_splitOn_iff (bytes : Bytes) :
    [] ∈ (bytes.splitOn slash).tail ↔
      [slash, slash] <:+: bytes ∨ bytes.getLast? = some slash := by
  constructor
  · intro hmem
    obtain ⟨first, rest, hsplit⟩ := List.exists_cons_of_ne_nil (List.splitOn_ne_nil slash bytes)
    rw [hsplit, List.tail_cons] at hmem
    obtain ⟨before, behind, hrest⟩ := List.mem_iff_append.mp hmem
    have hbytes : bytes = [slash].intercalate (first :: before)
        ++ slash :: [slash].intercalate ([] :: behind) := by
      rw [← intercalate_append (List.cons_ne_nil _ _) (List.cons_ne_nil _ _), List.cons_append,
        ← hrest, ← hsplit]
      exact (List.intercalate_splitOn slash).symm
    cases behind with
    | nil =>
      right
      rw [hbytes, List.intercalate_singleton]
      exact List.getLast?_concat
    | cons next more =>
      left
      rw [List.intercalate_cons_of_ne_nil (List.cons_ne_nil _ _)] at hbytes
      refine ⟨[slash].intercalate (first :: before), [slash].intercalate (next :: more), ?_⟩
      rw [hbytes]
      simp
  · intro hidle
    have hbehind : ∀ xs ys : Bytes, [] ∈ ys.splitOn slash →
        [] ∈ ((xs ++ slash :: ys).splitOn slash).tail := by
      intro xs ys hmem
      rw [List.splitOn_append_cons_self, List.tail_append_of_ne_nil (List.splitOn_ne_nil slash xs)]
      exact List.mem_append_right _ hmem
    rcases hidle with hdoubled | hlast
    · obtain ⟨xs, ys, rfl⟩ := hdoubled
      have hnext : [] ∈ (slash :: ys).splitOn slash := by
        rw [splitOn_slash_cons]
        exact List.mem_cons_self
      simpa using hbehind xs (slash :: ys) hnext
    · obtain ⟨xs, rfl⟩ := List.getLast?_eq_some_iff.mp hlast
      exact hbehind xs [] List.mem_cons_self

theorem clean_of_pieces {p : Path} (hnil : p.bytes ≠ []) (htail : [] ∉ (p.bytes.splitOn slash).tail)
    (hdot : [dot] ∉ p.bytes.splitOn slash) : p.Clean := by
  rw [nil_mem_tail_splitOn_iff, not_or] at htail
  exact ⟨hnil, htail.1, fun hlast => absurd hlast htail.2, fun hmem => absurd hmem hdot⟩

theorem clean_slash : Clean ⟨[slash]⟩ := by
  constructor <;> decide

theorem clean_dot : Clean ⟨[dot]⟩ := by
  constructor <;> decide

theorem clean_normalize (p : Path) : p.normalize.Clean := by
  have hnil : [] ∉ p.segments := fun hmem => (mem_spoken_iff.mp hmem).2.1 rfl
  have hdot : [dot] ∉ p.segments := fun hmem => (mem_spoken_iff.mp hmem).2.2 rfl
  have hbytes := p.bytes_normalize
  have hsplit := p.splitOn_normalize
  by_cases habsolute : p.isAbsolute = true
  · rw [if_pos habsolute] at hbytes hsplit
    by_cases hnone : p.segments = []
    · have hslash : p.normalize = ⟨[slash]⟩ := by
        rw [hnone] at hbytes
        exact congrArg Path.mk hbytes
      rw [hslash]
      exact clean_slash
    · rw [if_neg hnone] at hsplit
      apply clean_of_pieces
      · rw [hbytes]
        exact List.cons_ne_nil _ _
      · rw [hsplit]
        exact hnil
      · rw [hsplit, List.mem_cons, not_or]
        exact ⟨by decide, hdot⟩
  · rw [if_neg habsolute] at hbytes hsplit
    by_cases hnone : p.segments = []
    · have hhere : p.normalize = ⟨[dot]⟩ := by
        rw [if_pos hnone] at hbytes
        exact congrArg Path.mk hbytes
      rw [hhere]
      exact clean_dot
    · rw [if_neg hnone] at hsplit
      apply clean_of_pieces
      · intro hempty
        rw [hempty] at hsplit
        exact hnil (hsplit ▸ List.mem_cons_self)
      · rw [hsplit]
        exact fun hmem => hnil (List.mem_of_mem_tail hmem)
      · rw [hsplit]
        exact hdot

/-- A clean spelling has no other pieces than its segments, and so it is put together again as it was. -/
theorem isNormal_of_clean {p : Path} (clean : p.Clean) : p.IsNormal := by
  by_cases hslash : p.bytes = [slash]
  · rw [show p = ⟨[slash]⟩ from congrArg Path.mk hslash]
    rfl
  by_cases hhere : p.bytes = [dot]
  · rw [show p = ⟨[dot]⟩ from congrArg Path.mk hhere]
    rfl
  have htail : [] ∉ (p.bytes.splitOn slash).tail := by
    rw [nil_mem_tail_splitOn_iff, not_or]
    exact ⟨clean.undoubled, fun hlast => hslash (clean.untrailed hlast)⟩
  have hdot : [dot] ∉ p.bytes.splitOn slash := fun hmem => hhere (clean.undotted hmem)
  have hall : ∀ {bytes : Bytes}, [] ∉ bytes.splitOn slash → [dot] ∉ bytes.splitOn slash →
      spoken bytes = bytes.splitOn slash := by
    intro bytes hnil hdot
    apply List.filter_eq_self.mpr
    intro piece hmem
    apply decide_eq_true
    exact ⟨fun h => hnil (h ▸ hmem), fun h => hdot (h ▸ hmem)⟩
  have hbytes := p.bytes_normalize
  suffices hsame : p.normalize.bytes = p.bytes from congrArg Path.mk hsame
  by_cases habsolute : p.isAbsolute = true
  · have hlead := bytes_of_isAbsolute habsolute
    have hsplit : p.bytes.splitOn slash = [] :: p.body.splitOn slash := by
      rw [hlead, splitOn_slash_cons]
    rw [hsplit, List.tail_cons] at htail
    rw [hsplit, List.mem_cons, not_or] at hdot
    rw [if_pos habsolute, segments_eq_spoken_body, hall htail hdot.2,
      List.intercalate_splitOn] at hbytes
    rw [hbytes, hlead]
  · have hnil : [] ∉ p.bytes.splitOn slash := by
      obtain ⟨first, rest, hsplit⟩ := List.exists_cons_of_ne_nil (List.splitOn_ne_nil slash p.bytes)
      have hjoin : [slash].intercalate (first :: rest) = p.bytes := by
        rw [← hsplit, List.intercalate_splitOn]
      rw [hsplit, List.tail_cons] at htail
      rw [hsplit, List.mem_cons, not_or]
      refine ⟨?_, htail⟩
      intro hfirst
      rw [← hfirst] at hjoin
      cases rest with
      | nil => exact clean.ne_nil hjoin.symm
      | cons next more =>
        -- A path that starts with a slash starts at the root.
        rw [List.intercalate_cons_of_ne_nil (List.cons_ne_nil _ _)] at hjoin
        apply habsolute
        rw [show p = ⟨slash :: [slash].intercalate (next :: more)⟩ from congrArg Path.mk hjoin.symm]
        rfl
    have hsegments : p.segments = p.bytes.splitOn slash := hall hnil hdot
    rw [if_neg habsolute, hsegments, if_neg (List.splitOn_ne_nil slash p.bytes),
      List.intercalate_splitOn] at hbytes
    exact hbytes

/-- **A spelling is left as it is exactly when it is clean.** -/
theorem isNormal_iff_clean (p : Path) : p.IsNormal ↔ p.Clean := by
  constructor
  · intro hnormal
    rw [← hnormal]
    exact p.clean_normalize
  · exact isNormal_of_clean

end Path

/-! ## Keys of a table -/

namespace WatchTable

theorem stored?_insert (t : WatchTable) (p : Path) (w : Watch) :
    ∃ e, (t.insert p w).byPath.stored? p = some e ∧ e.2 = w := by
  obtain ⟨byHandle, -, hinsert⟩ := t.insert_eq p w
  rw [hinsert]
  simp only
  rw [Dict.stored?_insert, if_pos BEq.rfl]
  exact ⟨_, rfl, rfl⟩

end WatchTable

namespace Path

/-- **The clean spelling is canonical.**  Cleaning twice is cleaning once, and what it leaves as it is are
the clean spellings.  Two spellings come to one exactly when they agree, so for keys it makes no
difference whether they are told apart by what they say or by their bytes.  And what an add has put under
one spelling is what a removal finds under another one exactly when the two agree. -/
theorem normalize_canonical (p q : Path) :
    p.normalize.normalize.bytes = p.normalize.bytes ∧
      (p.normalize.bytes = q.normalize.bytes ↔ p.Agrees q) ∧
      p.normalize.Clean ∧ (p.normalize.bytes = p.bytes ↔ p.Clean) ∧
      ((p.normalize == q.normalize) = true ↔ p.normalize.bytes = q.normalize.bytes) ∧
      ∀ (w : Watcher) (o : WatchOptions), (w.add p o).1 = .ok () →
        ∃ e, (w.add p o).2.table.byPath.stored? p.normalize = some e ∧
          ((w.add p o).2.table.byPath.stored? q.normalize = some e ↔ p.Agrees q) ∧
          (p.Agrees q → (w.add p o).2.remove q = (w.add p o).2.remove p) := by
  have hinj : ∀ {r s : Path}, r.bytes = s.bytes ↔ r = s :=
    ⟨fun h => congrArg Path.mk h, fun h => congrArg Path.bytes h⟩
  have hsame : (p.normalize == q.normalize) = true ↔ p.normalize = q.normalize := by
    constructor
    · exact p.isNormal_normalize.eq_of_beq q.isNormal_normalize
    · intro h
      rw [h]
      exact BEq.rfl
  refine ⟨congrArg Path.bytes p.isNormal_normalize, hinj.trans (normalize_eq_iff_agrees p q),
    p.clean_normalize, hinj.trans p.isNormal_iff_clean, hsame.trans hinj.symm, ?_⟩
  intro w o hadded
  rcases w.add_cases p o with ⟨f, hrefused, -⟩ | ⟨g, -, htable⟩
  · rw [hadded] at hrefused
    cases hrefused
  · rw [htable]
    obtain ⟨e, he, -⟩ := w.table.stored?_insert p.normalize ⟨g, w.table.flagsOf p.normalize ||| o.flags⟩
    refine ⟨e, he, ?_, ?_⟩
    · rw [← normalize_eq_iff_agrees, ← hsame]
      constructor
      · intro hfound
        have hkey := (Dict.mem_and_beq_of_stored? he).2
        exact BEq.trans (BEq.symm hkey) (Dict.mem_and_beq_of_stored? hfound).2
      · intro hkey
        rw [← Dict.stored?_congr hkey]
        exact he
    · intro agrees
      have hclean := (normalize_eq_iff_agrees p q).mpr agrees
      unfold Watcher.remove
      rw [hclean]

/-- A watcher that has just been started on a small tree. -/
def untouched : Watcher := .start .default ⟨.fresh, .fresh 16⟩

/-- A directory is added as `./..//d/` and found again as `../d/.`. -/
theorem normalize_canonical_respelled :
    let p : Path := ⟨[dot, slash, dot, dot, slash, slash, 0x64, slash]⟩
    let q : Path := ⟨[dot, dot, slash, 0x64, slash, dot]⟩
    (untouched.add p .default).1 = .ok () ∧ p.Agrees q ∧
      p.normalize.bytes = [dot, dot, slash, 0x64] ∧ q.normalize.bytes = p.normalize.bytes ∧
      (untouched.add p .default).2.remove q = (untouched.add p .default).2.remove p ∧
      ((untouched.add p .default).2.remove p).1 = some (.ok ()) := by
  intro p q
  have hadded : (untouched.add p .default).1 = .ok () := by cbv
  have agrees : p.Agrees q := by decide
  obtain ⟨-, hagree, -, -, -, hentry⟩ := normalize_canonical p q
  obtain ⟨-, -, -, hremove⟩ := hentry untouched .default hadded
  exact ⟨hadded, agrees, by decide, (hagree.mpr agrees).symm, hremove agrees, by cbv⟩

end Path

end FileWatch
