import Mathlib
import FileWatch.Proofs.Interplay.System
import FileWatch.Proofs.Mask
import FileWatch.Proofs.WatchTable.Pairing

/-!
# What a watch has come to ask for

A path can be added again and again, and each time its watch asks for more.  What the table keeps of
this is one word of flags.  It says as much as the adds themselves: the flags of a path are what would
be asked for all its adds at once (`combined`), counted from the moment when the path was last not in
the table.

There are many ways out of the table: the kernel says that the watch is gone, a waiter runs out of
time, another name takes the handle over, everything is cleared.  They need not be told apart.  A
`Deed` is whatever is done to a table, and one lemma says what it does to one path (`entry?_apply`):
the path is not there afterwards, or it is as before, or it was added and has the flags of the add on
top of those it had.  A path that is not there has no flags (`flagsOf`), so that the first add and a
later one are one case.

`Stretch` cuts a history at the last moment without the path; the induction is on the part behind it.
-/

namespace FileWatch

/-! ## Asking for all of some options -/

namespace WatchOptions

/-- The flags that ask for everything that some options ask for. -/
def combined (os : List WatchOptions) : Mask :=
  Mask.request (os.foldl (fun s o => s ∪ o.requested) .empty)
    ||| if os.any (·.noFollow) then Mask.dontFollow else 0

@[simp] theorem combined_nil : combined [] = 0 := by decide

/-- To ask for one thing more is to add its flags. -/
theorem combined_concat (os : List WatchOptions) (o : WatchOptions) :
    combined (os ++ [o]) = combined os ||| o.flags := by
  unfold combined flags
  rw [List.foldl_append, List.foldl_cons, List.foldl_nil, Mask.request_union, List.any_append]
  apply Mask.ext_bit
  intro i
  simp only [Mask.bit_or, List.any_cons, List.any_nil, Bool.or_false]
  cases os.any (·.noFollow) <;> cases o.noFollow <;> simp [Bool.or_comm, Bool.or_left_comm, Bool.or_assoc]

theorem has_dontFollow_combined (os : List WatchOptions) :
    (combined os).has Mask.dontFollow = os.any (·.noFollow) := by
  unfold combined
  rw [Mask.has_or, Mask.has_request_eq_false (by decide), Bool.false_or]
  cases os.any (·.noFollow) <;> rfl

theorem has_maskAdd_combined (os : List WatchOptions) : (combined os).has Mask.maskAdd = false := by
  unfold combined
  rw [Mask.has_or, Mask.has_request_eq_false (by decide), Bool.false_or]
  cases os.any (·.noFollow) <;> rfl

end WatchOptions

/-! ## What a path is watched for -/

namespace WatchTable

variable {t : WatchTable} {p q : Path}

/-- Everything a path is watched for; nothing if it is not watched. -/
def flagsOf (t : WatchTable) (p : Path) : Mask := ( t.entry? p).elim 0 (·.flags)

theorem flagsOf_of_present {w : Watch} (h : t.entry? p = some w) : t.flagsOf p = w.flags := by
  rw [flagsOf, h]
  rfl

theorem flagsOf_of_absent (h : t.entry? p = none) : t.flagsOf p = 0 := by
  rw [flagsOf, h]
  rfl

theorem entry?_congr (h : (p == q) = true) : t.entry? p = t.entry? q := Dict.find?_congr h

theorem flagsOf_congr (h : (p == q) = true) : t.flagsOf p = t.flagsOf q := by
  rw [flagsOf, flagsOf, entry?_congr h]

theorem demand_eq_flagsOf (t : WatchTable) (p : Path) (flags : Mask) :
    t.demand p flags = (t.flagsOf p ||| flags, ( t.entry? p).isSome) := by
  unfold demand flagsOf
  cases t.entry? p with
  | none => simp
  | some w => rfl

/-- Sorting out a watch takes it out, or lets it be. -/
theorem filter_watch (keep : Watch → Bool) (w? : Option Watch) :
    w?.filter keep = none ∨ w?.filter keep = w? := by
  cases w? with
  | none => exact .inl rfl
  | some w =>
    rw [Option.filter_some]
    split
    · exact .inr rfl
    · exact .inl rfl

end WatchTable

/-! ## An add, whoever makes it -/

namespace Watcher

variable {w : Watcher} {q : Path} {o : WatchOptions}

/-- The one question that an add has for the kernel: all that the path is watched for and what the add
asks, and to widen the watch if there is one. -/
def question (w : Watcher) (q : Path) (o : WatchOptions) : Mask :=
  w.table.flagsOf q.normalize ||| o.flags
    ||| if ( w.table.entry? q.normalize).isSome then Mask.maskAdd else 0

theorem add_of_refused {f : Failure} (refused : w.ensureOpen = .error f) :
    w.add q o = (.error f, w) := by
  rw [add, refused]

/-- **An add asks the kernel once.**  The kernel is left as the question leaves it, its answer is the
answer of the add, and what it grants is stored with all that the path is watched for. -/
theorem add_of_open (hopen : w.ensureOpen = .ok ()) :
    (w.add q o).1 = (w.arm q.normalize (w.question q o)).1.map (fun _ => ()) ∧
      (w.add q o).2.kernel = (w.arm q.normalize (w.question q o)).2 ∧
      (w.add q o).2.table = match (w.arm q.normalize (w.question q o)).1 with
        | .error _ => w.table
        | .ok h => w.table.insert q.normalize ⟨h, w.table.flagsOf q.normalize ||| o.flags⟩ := by
  have hquestion : (if ( w.table.entry? q.normalize).isSome
      then w.table.flagsOf q.normalize ||| o.flags ||| Mask.maskAdd
      else w.table.flagsOf q.normalize ||| o.flags) = w.question q o := by
    unfold question
    split <;> simp
  unfold add
  rw [hopen]
  simp only [enroll, WatchTable.register, WatchTable.demand_eq_flagsOf, hquestion]
  cases (w.arm q.normalize (w.question q o)).1 <;> exact ⟨rfl, trivial, rfl⟩

/-- An add fails and leaves the table as it was, or puts a watch on the path, with the flags of the add
and those that were there. -/
theorem add_cases (w : Watcher) (q : Path) (o : WatchOptions) :
    (∃ f, (w.add q o).1 = .error f ∧ (w.add q o).2.table = w.table) ∨
      ∃ g, (w.add q o).1 = .ok () ∧ (w.add q o).2.table =
        w.table.insert q.normalize ⟨g, w.table.flagsOf q.normalize ||| o.flags⟩ := by
  cases hopen : w.ensureOpen with
  | error f =>
    rw [add_of_refused hopen]
    exact .inl ⟨f, rfl, rfl⟩
  | ok _ =>
    obtain ⟨hanswer, -, htable⟩ := add_of_open (q := q) (o := o) hopen
    rw [hanswer, htable]
    cases (w.arm q.normalize (w.question q o)).1 with
    | error f => exact .inl ⟨f, rfl, rfl⟩
    | ok g => exact .inr ⟨g, rfl, rfl⟩

/-- An add that fails leaves the table as it was. -/
theorem table_add_of_error {f : Failure} (h : (w.add q o).1 = .error f) :
    (w.add q o).2.table = w.table := by
  rcases w.add_cases q o with ⟨-, -, htable⟩ | ⟨-, hresult, -⟩
  · exact htable
  · rw [h] at hresult
    cases hresult

end Watcher

/-! ## Histories -/

/-- What can be done to a table of watches.  An add is made in some watcher that has the table; its phase,
its reader and its kernel may be any, so that an add can fail in every way. -/
inductive Deed where
  | add (world : Watcher) (path : Path) (options : WatchOptions)
  /-- The kernel said that a watch is gone. -/
  | purge (handle : Handle)
  /-- A waiter for the end of a watch ran out of time. -/
  | expire (path : Path) (handle : Handle)
  | clear

namespace Deed

variable {t : WatchTable} {p : Path}

/-- The table after it. -/
def apply (t : WatchTable) : Deed → WatchTable
  | .add world q o => ((world.withTable t).add q o).2.table
  | .purge h => (t.purge h).2
  | .expire q h =>
    match t.wait q h true with
    | .forced t => t
    | _ => t
  | .clear => t.clear

/-- The options with which it adds a path, if it does and is not refused. -/
def asks? (t : WatchTable) (p : Path) : Deed → Option WatchOptions
  | .add world q o =>
    if q.normalize == p && ((world.withTable t).add q o).1.isOk then some o else none
  | _ => none

/-- What a deed can do to a table: nothing, throw out a handle, throw out everything, or store a watch
with the flags of an add and those that were there. -/
theorem apply_cases (t : WatchTable) (d : Deed) :
    (d.apply t = t ∧ ∀ p, d.asks? t p = none) ∨
      (∃ h, d.apply t = (t.removeHandle h).2 ∧ ∀ p, d.asks? t p = none) ∨
      d.apply t = .empty ∨
      ∃ q o g, d.apply t = t.insert q ⟨g, t.flagsOf q ||| o.flags⟩ ∧
        ∀ p, d.asks? t p = if q == p then some o else none := by
  cases d with
  | add world q o =>
    rcases (world.withTable t).add_cases q o with ⟨f, hresult, htable⟩ | ⟨g, hresult, htable⟩
    · refine .inl ⟨htable, fun p => ?_⟩
      simp [asks?, hresult, Except.isOk, Except.toBool]
    · refine .inr (.inr (.inr ⟨q.normalize, o, g, htable, fun p => ?_⟩))
      simp [asks?, hresult, Except.isOk, Except.toBool]
  | purge h => exact .inr (.inl ⟨h, rfl, fun _ => rfl⟩)
  | expire q h =>
    unfold apply WatchTable.wait
    by_cases howns : t.owns q h = true
    · simp only [howns, Bool.not_true, Bool.false_eq_true, if_false, if_true]
      exact .inr (.inl ⟨h, rfl, fun _ => rfl⟩)
    · simp only [howns, Bool.not_false, if_true]
      exact .inl ⟨trivial, fun _ => rfl⟩
  | clear => exact .inr (.inr (.inl rfl))

theorem paired_apply (paired : t.Paired) (d : Deed) : (d.apply t).Paired := by
  rcases apply_cases t d with ⟨heq, -⟩ | ⟨h, heq, -⟩ | heq | ⟨q, o, g, heq, -⟩ <;> rw [heq]
  · exact paired
  · exact paired.removeHandle h
  · exact WatchTable.paired_empty
  · exact paired.insert _ _

/-- What a deed can do to a path: take it out, let it be, or add to it. -/
theorem entry?_apply (paired : t.Paired) (d : Deed) (p : Path) :
    WatchTable.entry? (d.apply t) p = none ∨
      (d.asks? t p = none ∧ WatchTable.entry? (d.apply t) p = t.entry? p) ∨
      ∃ o, d.asks? t p = some o ∧ (d.apply t).flagsOf p = t.flagsOf p ||| o.flags := by
  rcases apply_cases t d with ⟨heq, hasks⟩ | ⟨h, heq, hasks⟩ | heq | ⟨q, o, g, heq, hasks⟩
  · exact .inr (.inl ⟨hasks p, by rw [heq]⟩)
  · rw [heq, paired.removeHandle_eq, WatchTable.entry?_without]
    exact (WatchTable.filter_watch _ _).imp_right fun hsame => .inl ⟨hasks p, hsame⟩
  · rw [heq]
    exact .inl rfl
  · rw [heq, hasks p]
    by_cases hkey : (q == p) = true
    · refine .inr (.inr ⟨o, if_pos hkey, ?_⟩)
      have hentry := paired.entry?_insert q ⟨g, t.flagsOf q ||| o.flags⟩ p
      rw [if_pos hkey] at hentry
      rw [WatchTable.flagsOf_of_present hentry, WatchTable.flagsOf_congr hkey]
    · -- Another path was added.  It may have taken over the handle of this one.
      rw [if_neg hkey, paired.entry?_insert, if_neg hkey]
      exact (WatchTable.filter_watch _ _).imp_right fun hsame => .inl ⟨rfl, hsame⟩

/-- The table after many of them. -/
def applyAll (t : WatchTable) (history : List Deed) : WatchTable := history.foldl apply t

theorem applyAll_concat (t : WatchTable) (history : List Deed) (d : Deed) :
    applyAll t (history ++ [d]) = d.apply (applyAll t history) := by
  simp [applyAll]

theorem applyAll_append (t : WatchTable) (before during : List Deed) :
    applyAll t (before ++ during) = applyAll (applyAll t before) during :=
  List.foldl_append

theorem paired_applyAll (paired : t.Paired) (history : List Deed) : (applyAll t history).Paired := by
  induction history generalizing t with
  | nil => exact paired
  | cons d rest ih => exact ih (paired_apply paired d)

/-- The options of all the successful adds of a path, oldest first. -/
def asked (p : Path) : WatchTable → List Deed → List WatchOptions
  | _, [] => []
  | t, d :: rest => (d.asks? t p).toList ++ asked p (d.apply t) rest

theorem asked_concat (t : WatchTable) (history : List Deed) (d : Deed) :
    asked p t (history ++ [d]) = asked p t history ++ (d.asks? (applyAll t history) p).toList := by
  induction history generalizing t with
  | nil => simp [asked, applyAll]
  | cons e rest ih => simp [asked, ih, applyAll]

/-- **The flags of a path are those of its adds**, in a history that begins without the path and in
which it is there from then on. -/
theorem flagsOf_applyAll (paired : t.Paired) (absent : t.entry? p = none) (during : List Deed)
    (present : ∀ part : List Deed, part <+: during → part ≠ [] →
      ( WatchTable.entry? (applyAll t part) p).isSome = true) :
    (applyAll t during).flagsOf p = WatchOptions.combined (asked p t during) := by
  induction during using List.reverseRecOn with
  | nil => exact (WatchTable.flagsOf_of_absent absent).trans WatchOptions.combined_nil.symm
  | append_singleton during d ih =>
    have hbefore := ih fun part hpart => present part (hpart.trans (List.prefix_append _ _))
    have hthere := present _ List.prefix_rfl (by simp)
    rw [applyAll_concat] at hthere ⊢
    rw [asked_concat]
    rcases entry?_apply (paired_applyAll paired during) d p with hgone | ⟨hasks, hsame⟩ |
      ⟨o, hasks, hflags⟩
    · rw [hgone] at hthere
      cases hthere
    · rw [hasks, Option.toList_none, List.append_nil, ← hbefore, WatchTable.flagsOf, hsame]
      rfl
    · rw [hasks, Option.toList_some, WatchOptions.combined_concat, ← hbefore, hflags]

/-- A history, cut where a path was last not in the table. -/
structure Stretch (p : Path) (history before during : List Deed) : Prop where
  split : before ++ during = history
  absent : WatchTable.entry? (applyAll .empty before) p = none
  present : ∀ part : List Deed, part <+: during → part ≠ [] →
    ( WatchTable.entry? (applyAll .empty (before ++ part)) p).isSome = true

/-- Every history can be cut so. -/
theorem exists_stretch (p : Path) (history : List Deed) :
    ∃ before during, Stretch p history before during := by
  induction history using List.reverseRecOn with
  | nil =>
    refine ⟨[], [], rfl, rfl, fun part hpart hne => ?_⟩
    exact absurd (List.prefix_nil.mp hpart) hne
  | append_singleton history d ih =>
    cases hlast : WatchTable.entry? (applyAll .empty (history ++ [d])) p with
    | none =>
      refine ⟨history ++ [d], [], List.append_nil _, hlast, fun part hpart hne => ?_⟩
      exact absurd (List.prefix_nil.mp hpart) hne
    | some w =>
      obtain ⟨before, during, cut⟩ := ih
      refine ⟨before, during ++ [d], by rw [← cut.split, List.append_assoc], cut.absent, ?_⟩
      intro part hpart hne
      rcases List.prefix_concat_iff.mp hpart with rfl | hearlier
      · rw [← List.append_assoc, cut.split, hlast]
        rfl
      · exact cut.present part hearlier hne

theorem Stretch.flagsOf_eq {history before during : List Deed} (cut : Stretch p history before during) :
    (applyAll .empty history).flagsOf p =
      WatchOptions.combined (asked p (applyAll .empty before) during) := by
  rw [← cut.split, applyAll_append]
  refine flagsOf_applyAll (paired_applyAll WatchTable.paired_empty before) cut.absent during ?_
  intro part hpart hne
  rw [← applyAll_append]
  exact cut.present part hpart hne

end Deed

/-! ## The flags of every path, after every history -/

open Deed WatchOptions in
/-- **A watch asks for what its path was added with, and for nothing else.**  Since the path was last not
in the table, some adds of it succeeded.  Its flags are what asks for all the operations of these adds
at once; links are not followed exactly if one of them said so; and nothing in the flags is meant for a
single question.  Whoever adds the path next asks the kernel once, for all of this and for what is new,
and to widen the watch exactly if there is one; a watcher that is closed lets nobody in.  An add
that fails, of whatever path and for whatever reason, leaves the table as it was. -/
theorem flags_of_history (p : Path) (history : List Deed) :
    (∃ before during, Stretch p history before during) ∧
    ∀ before during, Stretch p history before during →
      let t := applyAll .empty history
      let os := asked p (applyAll .empty before) during
      (∀ w, t.entry? p = some w →
        w.flags = Mask.request (os.foldl (fun s o => s ∪ o.requested) .empty)
            ||| (if os.any (·.noFollow) then Mask.dontFollow else 0) ∧
          w.flags.has Mask.dontFollow = os.any (·.noFollow) ∧
          w.flags.has Mask.maskAdd = false) ∧
      (∀ (v : Watcher) (q : Path) (o : WatchOptions), v.table = t → (q.normalize == p) = true →
        let question := combined (os ++ [o]) ||| if ( t.entry? p).isSome then Mask.maskAdd else 0
        (v.ensureOpen = .ok () →
          (v.add q o).1 = (v.arm q.normalize question).1.map (fun _ => ()) ∧
          (v.add q o).2.kernel = (v.arm q.normalize question).2 ∧
          ∀ h, (v.arm q.normalize question).1 = .ok h →
            WatchTable.entry? (v.add q o).2.table p = some ⟨h, combined (os ++ [o])⟩) ∧
        ∀ f, v.ensureOpen = .error f → v.add q o = (.error f, v)) ∧
      ∀ (v : Watcher) (q : Path) (o : WatchOptions) (f : Failure), v.table = t →
        (v.add q o).1 = .error f → (v.add q o).2.table = t := by
  refine ⟨exists_stretch p history, fun before during cut => ?_⟩
  intro t os
  have hflags : t.flagsOf p = combined os := cut.flagsOf_eq
  have paired : t.Paired := paired_applyAll WatchTable.paired_empty history
  refine ⟨fun w hw => ?_, fun v q o hv hkey => ?_, fun v q o f hv hfails => ?_⟩
  · rw [← WatchTable.flagsOf_of_present hw, hflags]
    exact ⟨rfl, has_dontFollow_combined os, has_maskAdd_combined os⟩
  · intro question
    have hknown : t.flagsOf q.normalize ||| o.flags = combined (os ++ [o]) := by
      rw [combined_concat, ← hflags, WatchTable.flagsOf_congr hkey]
    have hquestion : v.question q o = question := by
      unfold Watcher.question
      rw [hv, hknown, WatchTable.entry?_congr hkey]
    refine ⟨fun hopen => ?_, fun f refused => Watcher.add_of_refused refused⟩
    obtain ⟨hanswer, hkernel, htable⟩ := Watcher.add_of_open (q := q) (o := o) hopen
    rw [hquestion] at hanswer hkernel htable
    refine ⟨hanswer, hkernel, fun h harm => ?_⟩
    rw [htable, harm, hv, hknown]
    exact (paired.entry?_insert _ _ p).trans (if_pos hkey)
  · rw [Watcher.table_add_of_error hfails, hv]

/-- Somebody adds a path in a watcher that has just been started on a small tree. -/
def Deed.adds (path : Path) (o : WatchOptions) : Deed :=
  .add (.start .default ⟨.fresh, .fresh 16⟩) path o

/-- A directory is added under its short name and loses it to the name that leads through the directory
above; then it is added again under the short name, spelled in two ways. -/
theorem flags_of_history_displaced :
    let before : List Deed := [.adds ⟨[dot]⟩ (.new .create), .adds ⟨[dot, dot, slash, 0x64]⟩ .default]
    let during : List Deed :=
      [.adds ⟨[dot]⟩ (WatchOptions.new .chmod).withoutFollowing, .adds ⟨[dot, slash]⟩ (.new .write)]
    Deed.Stretch ⟨[dot]⟩ (before ++ during) before during ∧
      ∃ w, WatchTable.entry? (Deed.applyAll .empty (before ++ during)) ⟨[dot]⟩ = some w ∧
        w.flags = Mask.attrib ||| Mask.modify ||| Mask.dontFollow := by
  intro before during
  have cut : Deed.Stretch ⟨[dot]⟩ (before ++ during) before during := by
    refine ⟨rfl, by cbv, fun part hpart hne => ?_⟩
    obtain ⟨rest, rfl, hrest⟩ := (List.prefix_cons_iff.mp hpart).resolve_left hne
    rcases List.prefix_cons_iff.mp hrest with rfl | ⟨last, rfl, hlast⟩
    · cbv
    · rw [List.prefix_nil.mp hlast]
      cbv
  obtain ⟨hflags, -, -⟩ := (flags_of_history ⟨[dot]⟩ (before ++ during)).2 before during cut
  have hthere := cut.present during List.prefix_rfl (List.cons_ne_nil _ _)
  obtain ⟨w, hw⟩ := Option.isSome_iff_exists.mp hthere
  have hasked : Deed.asked ⟨[dot]⟩ (Deed.applyAll .empty before) during
      = [(WatchOptions.new .chmod).withoutFollowing, .new .write] := by cbv
  refine ⟨cut, w, hw, ?_⟩
  rw [(hflags w hw).1, hasked]
  decide

end FileWatch
