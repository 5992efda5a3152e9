import FileWatch.Proofs.Record.KernelBytes
import FileWatch.Watcher

/-!
# What a reader wants dropped

While it goes through what it has read, a reader only notes which watches it wants dropped.  A turn of
the watcher asks the kernel for all of them when the reader is through.  It might as well ask after each
record (`Watcher.carryOut_carryOut`): what the reader noted before makes no difference to what it does
next, and what the kernel drops changes nothing that the reader looks at.

All this is about a reader at work, one that has its descriptor and was not told to close.  It takes
every record to its end (`dispatch_of_atWork`), and it never stops by itself.
-/

namespace FileWatch

namespace Reader

/-- A reader that runs, has its descriptor, and was not told to close. -/
structure AtWork (r : Reader) : Prop where
  running : r.running = true
  unclosed : r.closing = false
  isOpen : r.descriptorOpen = true

/-- A reader that wanted some watches dropped before. -/
def owing (r : Reader) (ds : List Handle) : Reader := { r with drops := ds ++ r.drops }

variable (pathExists : Path → Bool) {r : Reader}

theorem AtWork.report (atWork : r.AtWork) (f : Failure) :
    r.report f = (true, { r with errors := r.errors.send f }) :=
  if_neg (by rw [atWork.unclosed]; exact Bool.false_ne_true)

theorem AtWork.deliver (atWork : r.AtWork) (e : Event) :
    r.deliver e = (true, { r with events := r.events.send e }) :=
  if_neg (by rw [atWork.unclosed]; exact Bool.false_ne_true)

theorem AtWork.drop (atWork : r.AtWork) (h : Handle) :
    r.drop h = (true, { r with drops := r.drops ++ [h] }) := if_pos atWork.isOpen

/-! ## One record -/

/-- The event of a record is made, and handed over unless it is stale. -/
def announced (r : Reader) (rec : Record) : Reader :=
  match rec.event? r.table with
  | none => r
  | some e => if e.isStale pathExists then r else { r with events := r.events.send e }

/-- What is left to do with a record whose watch, if it moved, is to be dropped. -/
def told (r : Reader) (rec : Record) : Reader :=
  if rec.mask.has Mask.deleteSelf && r.table.parentReportsDelete rec.handle then r
  else r.announced pathExists rec

/-- What a record does to a reader at work. -/
def dispatched (r : Reader) (rec : Record) : Reader :=
  if rec.mask.has Mask.queueOverflow then { r with errors := r.errors.send .overflow }
  else if rec.mask.has Mask.ignored then { r with table := (r.table.purge rec.handle).2 }
  else if rec.mask.has Mask.moveSelf && rec.name.isNone then
    { r with drops := r.drops ++ [rec.handle] }.told pathExists rec
  else r.told pathExists rec

theorem announce_of_atWork (atWork : r.AtWork) (rec : Record) :
    r.announce pathExists rec = (true, r.announced pathExists rec) := by
  unfold announce announced
  cases rec.event? r.table with
  | none => rfl
  | some e => cases hstale : e.isStale pathExists <;> simp [hstale, atWork.deliver]

theorem dispatch_of_atWork (atWork : r.AtWork) (rec : Record) :
    r.dispatch pathExists rec = (true, r.dispatched pathExists rec) := by
  have htold : ∀ q : Reader, q.AtWork →
      (if rec.mask.has Mask.deleteSelf && q.table.parentReportsDelete rec.handle then (true, q)
        else q.announce pathExists rec) = (true, q.told pathExists rec) := by
    intro q hq
    unfold told
    rw [announce_of_atWork pathExists hq]
    split <;> rfl
  unfold dispatch dispatched
  rw [atWork.report, atWork.drop]
  cases rec.mask.has Mask.moveSelf && rec.name.isNone with
  | true =>
    simp only [Bool.not_true, Bool.false_eq_true, if_false, if_true]
    split
    · rfl
    split
    · rfl
    · exact htold { r with drops := r.drops ++ [rec.handle] }
        ⟨atWork.running, atWork.unclosed, atWork.isOpen⟩
  | false =>
    simp only [Bool.not_true, Bool.false_eq_true, if_false]
    rw [htold r atWork]
    split
    · rfl
    split <;> rfl

theorem announced_owing (r : Reader) (ds : List Handle) (rec : Record) :
    (r.owing ds).announced pathExists rec = (r.announced pathExists rec).owing ds := by
  unfold announced
  rw [show (r.owing ds).table = r.table from rfl]
  split
  · rfl
  split <;> rfl

theorem told_owing (r : Reader) (ds : List Handle) (rec : Record) :
    (r.owing ds).told pathExists rec = (r.told pathExists rec).owing ds := by
  unfold told
  rw [show (r.owing ds).table = r.table from rfl, announced_owing]
  split <;> rfl

theorem dispatched_owing (r : Reader) (ds : List Handle) (rec : Record) :
    (r.owing ds).dispatched pathExists rec = (r.dispatched pathExists rec).owing ds := by
  have howing : { r.owing ds with drops := (r.owing ds).drops ++ [rec.handle] }
      = { r with drops := r.drops ++ [rec.handle] }.owing ds := by
    simp [owing]
  unfold dispatched
  rw [howing, told_owing, told_owing]
  split
  · rfl
  split
  · rfl
  split <;> rfl

theorem drops_told (r : Reader) (rec : Record) : (r.told pathExists rec).drops = r.drops := by
  unfold told announced
  split
  · rfl
  split
  · rfl
  split <;> rfl

theorem AtWork.told (atWork : r.AtWork) (rec : Record) : (r.told pathExists rec).AtWork := by
  unfold Reader.told announced
  split
  · exact atWork
  split
  · exact atWork
  split
  · exact atWork
  · exact ⟨atWork.running, atWork.unclosed, atWork.isOpen⟩

theorem AtWork.dispatched (atWork : r.AtWork) (rec : Record) :
    (r.dispatched pathExists rec).AtWork := by
  obtain ⟨running, unclosed, isOpen⟩ := atWork
  unfold Reader.dispatched
  split
  · exact ⟨running, unclosed, isOpen⟩
  split
  · exact ⟨running, unclosed, isOpen⟩
  split
  · exact AtWork.told pathExists (r := { r with drops := r.drops ++ [rec.handle] })
      ⟨running, unclosed, isOpen⟩ rec
  · exact AtWork.told pathExists ⟨running, unclosed, isOpen⟩ rec

/-! ## All that was read -/

/-- A reader at work takes all that was read to its end, and is at work then. -/
theorem AtWork.dispatchAll (atWork : r.AtWork) (items : List (Except Malformation Record)) :
    (r.dispatchAll pathExists items).1 = true ∧ (r.dispatchAll pathExists items).2.AtWork := by
  induction items generalizing r with
  | nil => exact ⟨rfl, atWork⟩
  | cons item rest ih =>
    cases item with
    | error m =>
      rw [Reader.dispatchAll, atWork.report]
      exact ⟨rfl, atWork.running, atWork.unclosed, atWork.isOpen⟩
    | ok rec =>
      rw [Reader.dispatchAll, dispatch_of_atWork pathExists atWork]
      exact ih (atWork.dispatched pathExists rec)

theorem AtWork.owing (atWork : r.AtWork) (ds : List Handle) : (r.owing ds).AtWork :=
  ⟨atWork.running, atWork.unclosed, atWork.isOpen⟩

/-- What was noted before makes no difference. -/
theorem dispatchAll_owing (atWork : r.AtWork) (ds : List Handle)
    (items : List (Except Malformation Record)) : ((r.owing ds).dispatchAll pathExists items).2
      = (r.dispatchAll pathExists items).2.owing ds := by
  induction items generalizing r with
  | nil => rfl
  | cons item rest ih =>
    cases item with
    | error m =>
      rw [dispatchAll, dispatchAll, atWork.report, (atWork.owing ds).report]
      rfl
    | ok rec =>
      rw [dispatchAll, dispatchAll, dispatch_of_atWork pathExists atWork,
        dispatch_of_atWork pathExists (atWork.owing ds), dispatched_owing]
      exact ih (atWork.dispatched pathExists rec)

theorem turn_of_atWork (atWork : r.AtWork) (bytes : Bytes) :
    r.turn pathExists bytes = (r.dispatchAll pathExists (itemsOf bytes)).2 := by
  have hgoes := (atWork.dispatchAll pathExists (itemsOf bytes)).1
  unfold turn
  rw [read_eq]
  rcases hall : r.dispatchAll pathExists (itemsOf bytes) with ⟨go, q⟩
  rw [hall] at hgoes
  exact if_pos hgoes

end Reader

namespace Watcher

/-- The watcher when its reader has become another one, and when what that wants dropped was dropped. -/
def carryOut (w : Watcher) (r : Reader) : Watcher :=
  { w with
    kernel := r.drops.foldl (fun k h => (k.unwatch h).2) w.kernel
    reader := { r with drops := [] } }

theorem carryOut_of_paid (w : Watcher) {r : Reader} (paid : r.drops = []) :
    w.carryOut r = { w with reader := r } := by
  cases r
  cases paid
  rfl

theorem carryOut_owing (w : Watcher) (r : Reader) (ds : List Handle) : w.carryOut (r.owing ds)
    = { w with kernel := ds.foldl (fun k h => (k.unwatch h).2) w.kernel }.carryOut r := by
  unfold carryOut Reader.owing
  simp only [List.foldl_append]

theorem tree_carryOut (w : Watcher) (r : Reader) : (w.carryOut r).kernel.tree = w.kernel.tree := by
  show (r.drops.foldl _ w.kernel).tree = _
  induction r.drops generalizing w with
  | nil => rfl
  | cons h rest ih => exact ih { w with kernel := (w.kernel.unwatch h).2 }

/-- **What is wanted dropped may be dropped before the next record.** -/
theorem carryOut_carryOut (pathExists : Path → Bool) (w : Watcher) {r : Reader} (atWork : r.AtWork)
    (items : List (Except Malformation Record)) :
    (w.carryOut r).carryOut ((w.carryOut r).reader.dispatchAll pathExists items).2
      = w.carryOut (r.dispatchAll pathExists items).2 := by
  have howing : r = (w.carryOut r).reader.owing r.drops := by
    simp [carryOut, Reader.owing]
  have hpaid : (w.carryOut r).reader.AtWork := ⟨atWork.running, atWork.unclosed, atWork.isOpen⟩
  have hall := Reader.dispatchAll_owing pathExists hpaid r.drops items
  rw [← howing] at hall
  rw [hall, carryOut_owing]
  rfl

end Watcher

end FileWatch
