import FileWatch.Proofs.Mask
import FileWatch.Proofs.Path.Parts
import FileWatch.Proofs.Reader.Dispatch
import FileWatch.Proofs.Reader.Reads

/-!
# Deletions that are told twice

The deletion of an entry that is watched, in a directory that is watched, is told by two watches.  The
reader keeps quiet about what the entry's own watch tells if the directory above is watched for
deletions, and so the deletion is announced once, in whatever order the two are told
(`deletions_announced`).

The directory above is found by its text, as the path without its last part, and the text is not the
directory in two cases.  The path of an entry of the directory that all relative paths start from has no
last part but the entry, so what is looked up is the empty path and not the dot under which that
directory is watched: such a deletion is announced twice.  And what lies above a path that ends in
two dots is not the path without the dots: such a deletion can be kept quiet about for a directory that
will not tell it (`deletions_not_announced_once`).
-/

namespace FileWatch

/-! ## What is told is reported -/

namespace Ops

variable {a : Ops}

theorem isEmpty_eq_false (h : a.contains .remove = true) : a.isEmpty = false := by
  have hbits : a.bits &&& Ops.remove.bits = Ops.remove.bits := eq_of_beq h
  unfold isEmpty
  apply beq_eq_false_iff_ne.mpr
  intro hzero
  rw [hzero] at hbits
  exact absurd hbits (by decide)

theorem intersects_departure (h : a.contains .remove = true) :
    a.intersects (.remove ∪ .rename) = true := by
  have hbits : a.bits &&& Ops.remove.bits = Ops.remove.bits := eq_of_beq h
  unfold intersects
  apply bne_iff_ne.mpr
  intro hzero
  have hremove : (a.bits &&& (Ops.remove ∪ Ops.rename).bits) &&& Ops.remove.bits = Ops.remove.bits := by
    rw [UInt32.and_assoc, show (Ops.remove ∪ Ops.rename).bits &&& Ops.remove.bits = Ops.remove.bits from rfl]
    exact hbits
  rw [hzero] at hremove
  exact absurd hremove (by decide)

end Ops

namespace Mask

theorem contains_remove {m : Mask} (h : m.has delete = true ∨ m.has deleteSelf = true) :
    m.ops.contains .remove = true := by
  have hreported : (delete ||| deleteSelf, Ops.remove) ∈ reported := by decide
  apply contains_ops hreported
  rw [has_or_right, Bool.or_eq_true]
  exact h

end Mask

namespace Record

/-- A record of a watch about its own thing, or about an entry of it, that neither speaks of lost
records nor ends the watch. -/
structure Tells (r : Record) (h : Handle) (name : Option Bytes) : Prop where
  handle_eq : r.handle = h
  name_eq : r.name = name
  counts : r.mask.has Mask.queueOverflow = false
  lives : r.mask.has Mask.ignored = false

/-- A watch tells that its own thing was deleted. -/
structure TellsOwnDeletion (r : Record) (h : Handle) : Prop extends r.Tells h none where
  deleted : r.mask.has Mask.deleteSelf = true

/-- The watch of a directory tells that an entry was deleted. -/
structure TellsDeletion (r : Record) (h : Handle) (name : Bytes) : Prop extends
    r.Tells h (some name) where
  entry_deleted : r.mask.has Mask.delete = true
  not_own : r.mask.has Mask.deleteSelf = false

theorem Tells.invalidated? {r : Record} {h : Handle} {name : Option Bytes} (tells : r.Tells h name) :
    r.invalidated? = none := by
  unfold Record.invalidated?
  rw [tells.lives]
  rfl

/-- A record that has nothing to do with some watches, nor tells of a deletion of a path. -/
structure Unrelated (r : Record) (t : WatchTable) (c : Path) (hs : List Handle) : Prop where
  keeps : ∀ h ∈ hs, r.invalidated? ≠ some h
  silent : ∀ watched, t.resolve? r.handle = some watched → r.mask.ops.contains .remove = true →
    (r.subject watched).normalize ≠ c

theorem Unrelated.without {r : Record} {t : WatchTable} {c : Path} {hs : List Handle}
    (unrelated : r.Unrelated t c hs) (gone : List Handle) : r.Unrelated (t.without gone) c hs where
  keeps := unrelated.keeps
  silent := by
    intro watched hres
    rw [WatchTable.resolve?_without] at hres
    split at hres
    · cases hres
    · exact unrelated.silent watched hres

end Record

/-! ## Tables of clean paths -/

namespace WatchTable

/-- Every path is in its clean spelling. -/
def Normal (t : WatchTable) : Prop := ∀ p ∈ t.byPath.keys, p.IsNormal

variable {t : WatchTable}

theorem Normal.without (normal : t.Normal) (gone : List Handle) : (t.without gone).Normal := by
  intro p hp
  obtain ⟨e, he, rfl⟩ := List.mem_map.mp hp
  exact normal e.1 (List.mem_map_of_mem (List.mem_filter.mp he).1)

theorem Normal.exists_key (normal : t.Normal) {p : Path} {w : Watch} (h : t.entry? p = some w) :
    ∃ q, (q, w) ∈ t.byPath.entries ∧ q.IsNormal ∧ (q == p) = true := by
  obtain ⟨q, hq, hkey⟩ := Dict.find?_eq_some_iff.mp h
  exact ⟨q, hq, normal q (List.mem_map_of_mem hq), hkey⟩

/-- The path without the last part of another one is watched for deletions. -/
def Covers (t : WatchTable) (c : Path) : Prop :=
  ¬ (c.parts = [] ∨ c.parts = [.root]) ∧
    ∃ d w, d.parts = c.parts.dropLast ∧ t.entry? d = some w ∧ w.flags.has Mask.delete = true

theorem covers_iff {c : Path} : t.Covers c ↔ ∃ above w, c.parent? = some above ∧
    t.entry? above = some w ∧ w.flags.has Mask.delete = true := by
  have hparent := c.parent?_eq
  constructor
  · intro ⟨hparts, d, w, hd, hentry, hdelete⟩
    rw [if_neg hparts, Option.map_eq_some_iff] at hparent
    obtain ⟨above, habove, heq⟩ := hparent
    refine ⟨above, w, habove, ?_, hdelete⟩
    rw [← hentry]
    exact Dict.find?_congr (Path.beq_iff.mpr (heq.trans hd.symm))
  · intro ⟨above, w, habove, hentry, hdelete⟩
    rw [habove] at hparent
    split at hparent
    · cases hparent
    · rename_i hparts
      exact ⟨hparts, above, w, Option.some.inj hparent, hentry, hdelete⟩

theorem Covers.congr {c c' : Path} (h : (c == c') = true) : t.Covers c ↔ t.Covers c' := by
  unfold Covers
  rw [Path.beq_iff.mp h]

/-- An entry of a directory that is watched for deletions is covered, unless the directory is the one
that all relative paths start from. -/
theorem covers_join (normal : t.Normal) {d : Path} {wd : Watch} {n : Bytes} (hdnormal : d.IsNormal)
    (hd : t.entry? d = some wd) (hdelete : wd.flags.has Mask.delete = true)
    (hname : Path.IsFileName n) : t.Covers (d.join n).normalize ↔ d ≠ ⟨[dot]⟩ := by
  unfold Covers
  rw [d.parts_normalize_join hname, List.dropLast_concat]
  constructor
  · intro ⟨_, above, w, habove, hentry, _⟩
    rintro rfl
    obtain ⟨q, -, hq, hkey⟩ := normal.exists_key hentry
    have hnone : q.parts = [] := (Path.beq_iff.mp hkey).trans habove
    exact hq.parts_ne_nil hnone
  · intro hdot
    refine ⟨?_, d, wd, (hdnormal.proper_eq hdot).symm, hd, hdelete⟩
    rintro (h | h)
    · exact List.append_ne_nil_of_right_ne_nil _ (List.cons_ne_nil _ _) h
    · have hend := congrArg List.getLast? h
      rw [List.getLast?_concat] at hend
      cases hend

/-- What covers a path contains it, unless the path ends in two dots. -/
theorem Covers.exists_join (normal : t.Normal) {c : Path} (hc : c.IsNormal)
    (hup : c.parts.getLast? ≠ some .up) (covers : t.Covers c) : ∃ d wd n,
      (d, wd) ∈ t.byPath.entries ∧ Path.IsFileName n ∧ (d.join n).normalize = c ∧
      wd.flags.has Mask.delete = true := by
  obtain ⟨hparts, above, w, habove, hentry, hdelete⟩ := covers
  obtain ⟨d, hd, hdnormal, hkey⟩ := normal.exists_key hentry
  have hdparts : d.parts = c.parts.dropLast := (Path.beq_iff.mp hkey).trans habove
  have hdne : d.parts ≠ [] := hdnormal.parts_ne_nil
  obtain ⟨last, hlast⟩ : ∃ last, c.parts = d.parts ++ [last] := by
    have hne : c.parts ≠ [] := fun h => hparts (.inl h)
    exact ⟨c.parts.getLast hne, by rw [hdparts, List.dropLast_concat_getLast]⟩
  have hproper : c.proper = c.parts := by
    apply hc.proper_eq
    rintro rfl
    exact hdne hdparts
  -- The last part is not the first, so it is plain, and it is not the dots: it is a name.
  have hplain : last.Plain := by
    obtain ⟨steps, plain, hsteps⟩ := c.proper_eq
    rw [hproper, hlast] at hsteps
    apply plain
    rcases hsteps with hsteps | hsteps
    · rw [← hsteps]
      exact List.mem_append_right _ (List.mem_singleton_self last)
    · cases hfirst : d.parts with
      | nil => exact absurd hfirst hdne
      | cons first more =>
        rw [hfirst, List.cons_append, List.cons.injEq] at hsteps
        rw [← hsteps.2]
        exact List.mem_append_right _ (List.mem_singleton_self last)
  cases last with
  | root => exact absurd rfl hplain.ne_root
  | here => exact absurd rfl hplain.ne_here
  | up => exact absurd (by rw [hlast, List.getLast?_concat]) hup
  | name n =>
    have hname := Path.isFileName_of_plain hplain
    refine ⟨d, w, n, hd, hname, ?_, hdelete⟩
    rw [Path.normalize_congr ((d.parts_join hname).trans hlast.symm)]
    exact hc

end WatchTable

namespace Reader

/-- How often the removal of a path was announced. -/
def removalsOf (r : Reader) (c : Path) : Nat :=
  r.events.sent.countP fun e => e.has .remove && decide (e.path.normalize = c)

/-- A reader that serves a table of clean paths, a directory and another path among them. -/
structure Facing (s : Reader) (d c : Path) (wd wc : Watch) : Prop where
  serving : s.Serving
  normal : s.table.Normal
  directory : s.table.entry? d = some wd
  entry : s.table.entry? c = some wc

theorem removalsOf_after (s : Reader) (c : Path) (gone : List Handle) (es : List Event)
    (fs : List Failure) (ds : List Handle) : (s.after gone es fs ds).removalsOf c
      = s.removalsOf c + es.countP fun e => e.has .remove && decide (e.path.normalize = c) :=
  List.countP_append

section Steps

variable {pathExists : Path → Bool} {d c : Path} {wd wc : Watch}

theorem Facing.after {s : Reader} (facing : s.Facing d c wd wc) {gone : List Handle}
    (hwd : wd.handle ∉ gone) (hwc : wc.handle ∉ gone) (es : List Event) (fs : List Failure)
    (ds : List Handle) : (s.after gone es fs ds).Facing d c wd wc where
  serving := facing.serving.after gone es fs ds
  normal := facing.normal.without gone
  directory := by
    show WatchTable.entry? (s.table.without gone) d = _
    rw [WatchTable.entry?_without, facing.directory, Option.filter_some, if_pos (by simpa using hwd)]
  entry := by
    show WatchTable.entry? (s.table.without gone) c = _
    rw [WatchTable.entry?_without, facing.entry, Option.filter_some, if_pos (by simpa using hwc)]

/-- Some records are handled to their end, the directory and the path stay watched, and the removal of
the path is announced so many times. -/
structure Goes (pathExists : Path → Bool) (d c : Path) (wd wc : Watch) (s : Reader)
    (rs : List Record) (k : Nat) (s' : Reader) : Prop where
  handled : s.dispatchAll pathExists (rs.map .ok) = (true, s')
  facing : s'.Facing d c wd wc
  announced : s'.removalsOf c = s.removalsOf c + k
  shrinks : ∃ gone, s'.table = s.table.without gone

theorem Goes.append {s s' s'' : Reader} {rs rs' : List Record} {k k' : Nat}
    (h : Goes pathExists d c wd wc s rs k s') (h' : Goes pathExists d c wd wc s' rs' k' s'') :
    Goes pathExists d c wd wc s (rs ++ rs') (k + k') s'' where
  handled := by
    rw [List.map_append, dispatchAll_append, h.handled]
    exact h'.handled
  facing := h'.facing
  announced := by rw [h'.announced, h.announced, Nat.add_assoc]
  shrinks := by
    obtain ⟨gone, hgone⟩ := h.shrinks
    obtain ⟨gone', hgone'⟩ := h'.shrinks
    exact ⟨gone ++ gone', by rw [hgone', hgone, WatchTable.without_without]⟩

/-- One record: what it announces decides the count. -/
theorem Facing.goes (pathExists : Path → Bool) {s : Reader} (facing : s.Facing d c wd wc)
    {r : Record} (hwd : r.invalidated? ≠ some wd.handle) (hwc : r.invalidated? ≠ some wc.handle) :
    ∃ (said : Option Event) (s' : Reader), (∀ e, said = some e ↔ Announces pathExists s.table r e) ∧
      Goes pathExists d c wd wc s [r]
        (said.toList.countP fun e => e.has .remove && decide (e.path.normalize = c)) s' := by
  obtain ⟨said, hsaid, hdispatch⟩ := facing.serving.dispatch pathExists r
  refine ⟨said, s.after r.invalidated?.toList said.toList (r.failure? s.descriptorOpen).toList
    (r.dropped? s.descriptorOpen).toList, hsaid, ?_, ?_, removalsOf_after s c _ _ _ _, _, rfl⟩
  · rw [List.map_singleton, dispatchAll, hdispatch]
    rfl
  · apply facing.after
    · intro hmem
      exact hwd (Option.mem_toList.mp hmem)
    · intro hmem
      exact hwc (Option.mem_toList.mp hmem)

theorem Facing.goes_announced {s : Reader} (facing : s.Facing d c wd wc) {r : Record} {e : Event}
    (hkeeps : r.invalidated? = none) (announces : Announces pathExists s.table r e)
    (hremove : e.has .remove = true) (hpath : e.path.normalize = c) :
    ∃ s', Goes pathExists d c wd wc s [r] 1 s' := by
  have hnever : ∀ h, r.invalidated? ≠ some h := by
    intro h
    rw [hkeeps]
    exact nofun
  obtain ⟨said, s', hsaid, hgoes⟩ := facing.goes pathExists (hnever wd.handle) (hnever wc.handle)
  rw [(hsaid e).mpr announces] at hgoes
  refine ⟨s', ?_⟩
  simpa [hremove, hpath] using hgoes

theorem Facing.goes_unannounced {s : Reader} (facing : s.Facing d c wd wc) {r : Record}
    (hwd : r.invalidated? ≠ some wd.handle) (hwc : r.invalidated? ≠ some wc.handle)
    (silent : ∀ e, Announces pathExists s.table r e → e.has .remove = true → e.path.normalize ≠ c) :
    ∃ s', Goes pathExists d c wd wc s [r] 0 s' := by
  obtain ⟨said, s', hsaid, hgoes⟩ := facing.goes pathExists hwd hwc
  refine ⟨s', ?_⟩
  have hcount : (said.toList.countP fun e => e.has .remove && decide (e.path.normalize = c)) = 0 := by
    rw [List.countP_eq_zero]
    intro e he
    simpa using silent e ((hsaid e).mp (Option.mem_toList.mp he))
  rw [← hcount]
  exact hgoes

/-- Unrelated records announce nothing of the path. -/
theorem Facing.goes_unrelated {s : Reader} (facing : s.Facing d c wd wc) {rs : List Record}
    (unrelated : ∀ r ∈ rs, r.Unrelated s.table c [wc.handle, wd.handle]) :
    ∃ s', Goes pathExists d c wd wc s rs 0 s' := by
  induction rs generalizing s with
  | nil => exact ⟨s, rfl, facing, rfl, [], s.table.without_nil.symm⟩
  | cons r rest ih =>
    have hr := unrelated r List.mem_cons_self
    have hsilent : ∀ e, Announces pathExists s.table r e → e.has .remove = true →
        e.path.normalize ≠ c := by
      rintro e ⟨watched, -, -, hres, -, -, -⟩ hremove
      exact hr.silent watched hres hremove
    obtain ⟨s', hgoes⟩ := facing.goes_unannounced (hr.keeps wd.handle (by simp))
      (hr.keeps wc.handle (by simp)) hsilent
    obtain ⟨gone, hgone⟩ := hgoes.shrinks
    obtain ⟨s'', hgoes'⟩ := ih hgoes.facing fun q hq => by
      rw [hgone]
      exact (unrelated q (List.mem_cons_of_mem r hq)).without gone
    exact ⟨s'', hgoes.append hgoes'⟩

theorem Goes.append_unrelated {s s' : Reader} {rs between : List Record} {k : Nat}
    (h : Goes pathExists d c wd wc s rs k s')
    (unrelated : ∀ r ∈ between, r.Unrelated s.table c [wc.handle, wd.handle]) :
    ∃ s'', Goes pathExists d c wd wc s (rs ++ between) k s'' := by
  obtain ⟨gone, hgone⟩ := h.shrinks
  obtain ⟨s'', h'⟩ : ∃ s'', Goes pathExists d c wd wc s' between 0 s'' := by
    apply h.facing.goes_unrelated
    intro r hr
    rw [hgone]
    exact (unrelated r hr).without gone
  exact ⟨s'', h.append h'⟩

/-- The path under which a watch is known, and what it names. -/
theorem Facing.resolves {s : Reader} (facing : s.Facing d c wd wc) :
    (∃ watched, s.table.resolve? wd.handle = some watched ∧ watched.parts = d.parts) ∧
      ∃ watched, s.table.resolve? wc.handle = some watched ∧ watched.parts = c.parts := by
  have paired := facing.serving.paired
  obtain ⟨x, hx, hxd⟩ := (paired.resolve?_iff d wd.handle).mpr ⟨wd, facing.directory, rfl⟩
  obtain ⟨y, hy, hyc⟩ := (paired.resolve?_iff c wc.handle).mpr ⟨wc, facing.entry, rfl⟩
  exact ⟨⟨x, hx, Path.beq_iff.mp hxd⟩, y, hy, Path.beq_iff.mp hyc⟩

/-- What the path's own watch tells is announced, unless the path is covered. -/
theorem Facing.goes_own {s : Reader} (facing : s.Facing d c wd wc) (hc : c.IsNormal)
    {own : Record} (tells : own.TellsOwnDeletion wc.handle) :
    (s.table.Covers c → ∃ s', Goes pathExists d c wd wc s [own] 0 s') ∧
      (¬ s.table.Covers c → ∃ s', Goes pathExists d c wd wc s [own] 1 s') := by
  obtain ⟨-, watched, hres, hwatched⟩ := facing.resolves
  rw [← tells.handle_eq] at hres
  have hsubject : own.subject watched = watched := by
    unfold Record.subject
    rw [tells.name_eq]
  have hpath : (own.subject watched).normalize = c := by
    rw [hsubject, Path.normalize_congr hwatched]
    exact hc
  have hremove : own.mask.ops.contains .remove = true := Mask.contains_remove (.inr tells.deleted)
  have hcovers : s.table.Covers c ↔ ∃ above w, watched.parent? = some above ∧
      s.table.entry? above = some w ∧ w.flags.has Mask.delete = true := by
    rw [← WatchTable.Covers.congr (Path.beq_iff.mpr hwatched), WatchTable.covers_iff]
  constructor
  · intro covers
    have hnever : ∀ h, own.invalidated? ≠ some h := by
      intro h
      rw [tells.invalidated?]
      exact nofun
    apply facing.goes_unannounced (hnever wd.handle) (hnever wc.handle)
    intro e announces
    obtain ⟨watched', -, -, hres', -, unreported, -⟩ := announces
    rw [hres, Option.some.injEq] at hres'
    subst hres'
    exact absurd ⟨tells.deleted, hcovers.mp covers⟩ unreported
  · intro uncovered
    refine facing.goes_announced tells.invalidated? (.intro watched tells.counts tells.lives hres
      (Ops.isEmpty_eq_false hremove) ?_ (.inl (Ops.intersects_departure hremove))) hremove hpath
    intro hreported
    exact uncovered (hcovers.mpr hreported.2)

/-- What the watch of the directory tells is announced. -/
theorem Facing.goes_entry {s : Reader} (facing : s.Facing d c wd wc) {n : Bytes}
    (hname : Path.IsFileName n) (hjoin : (d.join n).normalize = c) {entry : Record}
    (tells : entry.TellsDeletion wd.handle n) : ∃ s', Goes pathExists d c wd wc s [entry] 1 s' := by
  obtain ⟨⟨watched, hres, hwatched⟩, -⟩ := facing.resolves
  rw [← tells.handle_eq] at hres
  have hsubject : entry.subject watched = watched.join n := by
    unfold Record.subject
    rw [tells.name_eq]
  have hpath : (entry.subject watched).normalize = c := by
    rw [hsubject, ← hjoin]
    apply Path.normalize_congr
    rw [watched.parts_join hname, d.parts_join hname, hwatched]
  have hremove : entry.mask.ops.contains .remove = true :=
    Mask.contains_remove (.inl tells.entry_deleted)
  refine facing.goes_announced tells.invalidated? (.intro watched tells.counts tells.lives hres
    (Ops.isEmpty_eq_false hremove) ?_ (.inl (Ops.intersects_departure hremove))) hremove hpath
  intro hreported
  rw [tells.not_own] at hreported
  exact Bool.false_ne_true hreported.1

/-- A directory, and a path that names an entry of it, are registered in a table of clean paths, and
deletions are asked for in the directory. -/
structure Nested (t : WatchTable) (d : Path) (n : Bytes) (c : Path) (wd wc : Watch) : Prop where
  directory : (d, wd) ∈ t.byPath.entries
  asked : wd.flags.has Mask.delete = true
  entry : (c, wc) ∈ t.byPath.entries
  name : Path.IsFileName n
  join : (d.join n).normalize = c

/-- Whatever came before it, what the path's own watch tells counts only below the dot. -/
theorem Facing.goes_own_nested {s₀ s : Reader} {n : Bytes} (normal : s₀.table.Normal)
    (nested : Nested s₀.table d n c wd wc) (facing : s.Facing d c wd wc) {own : Record}
    (tells : own.TellsOwnDeletion wc.handle) :
    ∃ s', Goes pathExists d c wd wc s [own] (if d = ⟨[dot]⟩ then 1 else 0) s' := by
  have hdnormal : d.IsNormal := normal d (List.mem_map_of_mem nested.directory)
  have hcnormal : c.IsNormal := normal c (List.mem_map_of_mem nested.entry)
  have hcovers := WatchTable.covers_join facing.normal hdnormal facing.directory nested.asked nested.name
  rw [nested.join] at hcovers
  by_cases hdot : d = ⟨[dot]⟩
  · rw [if_pos hdot]
    exact (facing.goes_own hcnormal tells).2 fun covers => hcovers.mp covers hdot
  · rw [if_neg hdot]
    exact (facing.goes_own hcnormal tells).1 (hcovers.mpr hdot)

/-- The two watches tell of the deletion, in either order. -/
theorem goes_both {s : Reader} {n : Bytes} {own entry : Record} {between rs : List Record}
    (serving : s.Serving) (normal : s.table.Normal) (nested : Nested s.table d n c wd wc)
    (hown : own.TellsOwnDeletion wc.handle) (hentry : entry.TellsDeletion wd.handle n)
    (unrelated : ∀ r ∈ between, r.Unrelated s.table c [wc.handle, wd.handle])
    (hrs : rs = own :: between ++ [entry] ∨ rs = entry :: between ++ [own]) :
    ∃ s', Goes pathExists d c wd wc s rs (if d = ⟨[dot]⟩ then 2 else 1) s' := by
  have facing : s.Facing d c wd wc :=
    ⟨serving, normal, Dict.find?_of_mem nested.directory, Dict.find?_of_mem nested.entry⟩
  have htotal : (if d = ⟨[dot]⟩ then 2 else 1) = 1 + if d = ⟨[dot]⟩ then 1 else 0 := by
    split <;> rfl
  rw [htotal]
  rcases hrs with rfl | rfl
  · obtain ⟨s₁, h₁⟩ : ∃ s₁, Goes pathExists d c wd wc s [own] _ s₁ :=
      facing.goes_own_nested normal nested hown
    obtain ⟨s₂, h₂⟩ := h₁.append_unrelated unrelated
    obtain ⟨s₃, h₃⟩ := h₂.facing.goes_entry nested.name nested.join hentry
    rw [Nat.add_comm]
    exact ⟨s₃, h₂.append h₃⟩
  · obtain ⟨s₁, h₁⟩ : ∃ s₁, Goes pathExists d c wd wc s [entry] 1 s₁ :=
      facing.goes_entry nested.name nested.join hentry
    obtain ⟨s₂, h₂⟩ := h₁.append_unrelated unrelated
    obtain ⟨s₃, h₃⟩ := h₂.facing.goes_own_nested normal nested hown
    exact ⟨s₃, h₂.append h₃⟩

end Steps

/-- **Deletions are announced once**, but for two kinds of paths. -/
theorem deletions_announced (pathExists : Path → Bool) {s : Reader} (serving : s.Serving)
    (normal : s.table.Normal) :
    (∀ d n c wd wc own entry between, Nested s.table d n c wd wc →
      Record.TellsOwnDeletion own wc.handle → Record.TellsDeletion entry wd.handle n →
      (∀ r ∈ between, Record.Unrelated r s.table c [wc.handle, wd.handle]) →
      ∀ rs, (rs = own :: between ++ [entry] ∨ rs = entry :: between ++ [own]) →
        ∃ s', s.dispatchAll pathExists (rs.map .ok) = (true, s') ∧
          s'.removalsOf c = s.removalsOf c + if d = ⟨[dot]⟩ then 2 else 1) ∧
    ∀ c wc own, (c, wc) ∈ s.table.byPath.entries → c.parts.getLast? ≠ some .up →
      (∀ d wd n, (d, wd) ∈ s.table.byPath.entries → Path.IsFileName n →
        (d.join n).normalize = c → wd.flags.has Mask.delete = false) →
      Record.TellsOwnDeletion own wc.handle →
      ∃ s', s.dispatchAll pathExists [.ok own] = (true, s') ∧
        s'.removalsOf c = s.removalsOf c + 1 := by
  constructor
  · intro d n c wd wc own entry between nested hown hentry unrelated rs hrs
    obtain ⟨s', hgoes⟩ := goes_both serving normal nested hown hentry unrelated hrs
    exact ⟨s', hgoes.handled, hgoes.announced⟩
  · intro c wc own hc hup huncovered hown
    have hcnormal : c.IsNormal := normal c (List.mem_map_of_mem hc)
    have facing : s.Facing c c wc wc :=
      ⟨serving, normal, Dict.find?_of_mem hc, Dict.find?_of_mem hc⟩
    obtain ⟨s', hgoes⟩ : ∃ s', Goes pathExists c c wc wc s [own] 1 s' := by
      apply (facing.goes_own hcnormal hown).2
      intro covers
      obtain ⟨d, wd, n, hd, hname, hjoin, hdelete⟩ := covers.exists_join normal hcnormal hup
      rw [huncovered d wd n hd hname hjoin] at hdelete
      exact Bool.false_ne_true hdelete
    exact ⟨s', hgoes.handled, hgoes.announced⟩

/-- What the two watches of nested directories tell when the inner one is deleted, and something that
has nothing to do with it. -/
def innerDeletion : Record := ⟨⟨2⟩, Mask.deleteSelf, 0, none⟩

def outerDeletion : Record := ⟨⟨1⟩, Mask.delete ||| Mask.isDirectory, 0, some [0x73]⟩

def elsewhere : Record := ⟨⟨1⟩, Mask.modify, 0, some [0x78]⟩

theorem deletions_announced_inner :
    watchingNested.Serving ∧ watchingNested.table.Normal ∧
      Nested watchingNested.table ⟨[0x2F, 0x74]⟩ [0x73] ⟨[0x2F, 0x74, 0x2F, 0x73]⟩
        ⟨⟨1⟩, Mask.request .portable⟩ ⟨⟨2⟩, Mask.request .portable⟩ ∧
      innerDeletion.TellsOwnDeletion ⟨2⟩ ∧ outerDeletion.TellsDeletion ⟨1⟩ [0x73] ∧
      elsewhere.Unrelated watchingNested.table ⟨[0x2F, 0x74, 0x2F, 0x73]⟩ [⟨2⟩, ⟨1⟩] ∧
      ∃ s', watchingNested.dispatchAll (fun _ => false)
          ([innerDeletion, elsewhere, outerDeletion].map .ok) = (true, s') ∧
        s'.removalsOf ⟨[0x2F, 0x74, 0x2F, 0x73]⟩ = 1 := by
  have serving : watchingNested.Serving :=
    ⟨(WatchTable.paired_empty.insert _ _).insert _ _, rfl, rfl, rfl⟩
  have normal : watchingNested.table.Normal := by
    unfold WatchTable.Normal Path.IsNormal
    decide
  have nested : Nested watchingNested.table ⟨[0x2F, 0x74]⟩ [0x73] ⟨[0x2F, 0x74, 0x2F, 0x73]⟩
      ⟨⟨1⟩, Mask.request .portable⟩ ⟨⟨2⟩, Mask.request .portable⟩ :=
    ⟨.head _, by decide, .tail _ (.head _), ⟨by decide, by decide, by decide, by decide⟩, by decide⟩
  have own : innerDeletion.TellsOwnDeletion ⟨2⟩ := ⟨⟨rfl, rfl, by decide, by decide⟩, by decide⟩
  have entry : outerDeletion.TellsDeletion ⟨1⟩ [0x73] :=
    ⟨⟨rfl, rfl, by decide, by decide⟩, by decide, by decide⟩
  have unrelated : elsewhere.Unrelated watchingNested.table ⟨[0x2F, 0x74, 0x2F, 0x73]⟩ [⟨2⟩, ⟨1⟩] := by
    refine ⟨by decide, ?_⟩
    intro watched _ hremove
    exact absurd hremove (by decide)
  refine ⟨serving, normal, nested, own, entry, unrelated, ?_⟩
  refine (deletions_announced (fun _ => false) serving normal).1 ⟨[0x2F, 0x74]⟩ [0x73]
    ⟨[0x2F, 0x74, 0x2F, 0x73]⟩ ⟨⟨1⟩, Mask.request .portable⟩ ⟨⟨2⟩, Mask.request .portable⟩
    innerDeletion outerDeletion [elsewhere] nested own entry ?_ _ (.inl rfl)
  intro r hr
  rw [List.mem_singleton.mp hr]
  exact unrelated

/-- A reader that watches a directory for deletions, and another path for its own. -/
def watchingBoth (directory path : Bytes) : Reader :=
  { fresh with
    table := (WatchTable.empty.insert ⟨directory⟩ ⟨⟨1⟩, Mask.delete⟩).insert
      ⟨path⟩ ⟨⟨2⟩, Mask.deleteSelf⟩ }

theorem serving_watchingBoth (directory path : Bytes) : (watchingBoth directory path).Serving :=
  ⟨(WatchTable.paired_empty.insert _ _).insert _ _, rfl, rfl, rfl⟩

/-- **Where deletions are not announced once.**  The deletion of `f`, watched along with the dot, is
announced twice.  That of `x/a/..` is not announced where `x/a` is watched, which does not contain it. -/
theorem deletions_not_announced_once :
    ((watchingBoth [dot] [0x66]).Serving ∧ (watchingBoth [dot] [0x66]).table.Normal ∧
      Nested (watchingBoth [dot] [0x66]).table ⟨[dot]⟩ [0x66] ⟨[0x66]⟩
        ⟨⟨1⟩, Mask.delete⟩ ⟨⟨2⟩, Mask.deleteSelf⟩ ∧
      innerDeletion.TellsOwnDeletion ⟨2⟩ ∧
      Record.TellsDeletion ⟨⟨1⟩, Mask.delete, 0, some [0x66]⟩ ⟨1⟩ [0x66] ∧
      ((watchingBoth [dot] [0x66]).dispatchAll (fun _ => false)
        [.ok innerDeletion, .ok ⟨⟨1⟩, Mask.delete, 0, some [0x66]⟩]).2.removalsOf ⟨[0x66]⟩ = 2) ∧
    (watchingBoth [0x78, 0x2F, 0x61] [0x78, 0x2F, 0x61, 0x2F, dot, dot]).Serving ∧
      (watchingBoth [0x78, 0x2F, 0x61] [0x78, 0x2F, 0x61, 0x2F, dot, dot]).table.Normal ∧
      (∀ d wd n, (d, wd) ∈ (watchingBoth [0x78, 0x2F, 0x61]
          [0x78, 0x2F, 0x61, 0x2F, dot, dot]).table.byPath.entries →
        Path.IsFileName n → (d.join n).normalize ≠ ⟨[0x78, 0x2F, 0x61, 0x2F, dot, dot]⟩) ∧
      ((watchingBoth [0x78, 0x2F, 0x61] [0x78, 0x2F, 0x61, 0x2F, dot, dot]).dispatchAll
        (fun _ => false) [.ok innerDeletion]).2.removalsOf ⟨[0x78, 0x2F, 0x61, 0x2F, dot, dot]⟩ = 0 := by
  refine ⟨⟨serving_watchingBoth _ _, ?_, ?_, ?_, ?_, by decide⟩, serving_watchingBoth _ _, ?_, ?_,
    by decide⟩
  · unfold WatchTable.Normal Path.IsNormal
    decide
  · exact ⟨.head _, by decide, .tail _ (.head _), ⟨by decide, by decide, by decide, by decide⟩, by decide⟩
  · exact ⟨⟨rfl, rfl, by decide, by decide⟩, by decide⟩
  · exact ⟨⟨rfl, rfl, by decide, by decide⟩, by decide, by decide⟩
  · unfold WatchTable.Normal Path.IsNormal
    decide
  · -- The last part of what is joined is a name.
    intro d wd n _ hname hjoin
    have hend := congrArg List.getLast? (d.parts_normalize_join hname)
    rw [hjoin, List.getLast?_concat] at hend
    have hup : (⟨[0x78, 0x2F, 0x61, 0x2F, dot, dot]⟩ : Path).parts.getLast? = some .up := by decide
    rw [hup] at hend
    cases hend

end Reader

end FileWatch
