import FileWatch.Proofs.Interplay.Asking
import FileWatch.Proofs.Interplay.Steady
import FileWatch.Proofs.Reader.Boundaries

/-!
# One call after the other

What many callers do at once is compared with what the same calls do one after the other, where the
reader catches up after each of them (`Watcher.serveAll`).

A `Quiet` watcher has nothing to catch up with.  It answers a registration as the kernel does and a
removal at once, and is quiet again.  What the kernel answers depends on little: on where the path leads
and on the `roster`, which says what is watched under which handle.  What the watches are to report, and
what waits to be read, has no part in it (`Watcher.arm_congr`).
-/

namespace FileWatch

/-! ## What the kernel's answers depend on -/

namespace Notifier

variable {n n' : Notifier} {h : Handle} {i : Inode}

/-- What is watched under which handle, and how many handles were given out. -/
def roster (n : Notifier) : List (Handle × Inode) × Nat :=
  (n.watches.map fun w => (w.handle, w.inode), n.granted)

theorem roster_of_eq (watches : n'.watches = n.watches) (granted : n'.granted = n.granted) :
    n'.roster = n.roster := by
  unfold roster
  rw [watches, granted]

theorem mem_roster_iff : (h, i) ∈ n.roster.1 ↔ n.Watches h i := by
  simp [roster, Watches]

theorem watches_congr (same : n'.roster = n.roster) : n'.Watches h i ↔ n.Watches h i := by
  rw [← mem_roster_iff, ← mem_roster_iff, same]

theorem isLive_iff_watches : n.isLive h = true ↔ ∃ i, n.Watches h i := by
  rw [isLive_iff]
  constructor
  · rintro ⟨w, hw, hh⟩
    exact ⟨w.inode, w, hw, hh, rfl⟩
  · rintro ⟨i, w, hw, hh, -⟩
    exact ⟨w, hw, hh⟩

theorem isLive_congr (same : n'.roster = n.roster) (h : Handle) : n'.isLive h = n.isLive h := by
  rw [Bool.eq_iff_iff, isLive_iff_watches, isLive_iff_watches]
  exact exists_congr fun i => watches_congr same

theorem roster_revoke (h : Handle) :
    (n.revoke h).2.roster = (n.roster.1.filter fun e => e.1 ≠ h, n.roster.2) := by
  unfold roster
  rw [watches_revoke, granted_revoke, List.filter_map]
  rfl

theorem find?_roster (i : Inode) : (n.roster.1.find? fun e => e.2 = i)
    = (n.watchOf? i).map fun w => (w.handle, w.inode) := by
  unfold roster watchOf?
  rw [List.find?_map]
  rfl

/-- A grant depends on the roster only, and so does what it makes of it. -/
theorem grant_congr (same : n'.roster = n.roster) (i : Inode) (flags' flags : Mask) :
    (n'.grant i flags').1 = (n.grant i flags).1 ∧
      (n'.grant i flags').2.roster = (n.grant i flags).2.roster := by
  have hfind := congrArg (fun r : List (Handle × Inode) × Nat => r.1.find? fun e => e.2 = i) same
  simp only [find?_roster] at hfind
  have hgranted : n'.granted = n.granted := congrArg Prod.snd same
  have hwatches : (n'.watches.map fun w => (w.handle, w.inode))
      = n.watches.map fun w => (w.handle, w.inode) := congrArg Prod.fst same
  have hwidened : ∀ (l : List KernelWatch) (mask : Mask),
      (l.map fun v => if v.inode = i then { v with mask } else v).map (fun w => (w.handle, w.inode))
        = l.map fun w => (w.handle, w.inode) := by
    intro l mask
    rw [List.map_map]
    refine List.map_congr_left fun v _ => ?_
    simp only [Function.comp]
    split <;> rfl
  unfold grant
  cases hold : n.watchOf? i with
  | some w =>
    rw [hold, Option.map_some, Option.map_eq_some_iff] at hfind
    obtain ⟨w', hold', hw⟩ := hfind
    simp only [Prod.mk.injEq] at hw
    simp only [hold', hw.1, true_and, roster, hwidened, hwatches, hgranted]
  | none =>
    rw [hold, Option.map_none, Option.map_eq_none_iff] at hfind
    simp only [hfind, hgranted]
    split
    · simp only [roster, List.map_append, hwatches, true_and]
      rfl
    · exact ⟨rfl, same⟩

end Notifier

namespace Watcher

variable {w w' : Watcher} {p : Path} {flags flags' : Mask}

/-- **What a registration is answered**, if the kernel can be asked: where its path leads decides, and
then whether there is a handle left. -/
theorem arm_eq_verdict (isOpen : w.reader.descriptorOpen = true) : w.arm p flags =
    match Holdings.verdict w.kernel.tree.find p flags none with
    | .error cause => (.error (.registration p cause), w.kernel)
    | .ok i =>
      match (w.kernel.notifier.grant i flags).1 with
      | .error e => (.error (.registration p (.errno e)), w.kernel)
      | .ok h => (.ok h, { w.kernel with notifier := (w.kernel.notifier.grant i flags).2 }) := by
  unfold arm Holdings.verdict Kernel.watch
  rw [isOpen]
  cases p.bytes.findIdx? (· == 0) with
  | some n => rfl
  | none =>
    cases flags.has Mask.known with
    | false => rfl
    | true =>
      cases w.kernel.tree.find (!flags.has Mask.dontFollow) p with
      | error e => simp
      | ok i =>
        rcases hgrant : w.kernel.notifier.grant i flags with ⟨e | h, n⟩
        · have hsame := Notifier.grant_error hgrant
          subst hsame
          simp [hgrant]
        · simp [hgrant]

/-- **Two watchers are answered alike** if paths lead them to the same and their rosters are the same. -/
theorem arm_congr (isOpen : w.reader.descriptorOpen = true)
    (isOpen' : w'.reader.descriptorOpen = true)
    (trees : w'.kernel.tree.find = w.kernel.tree.find)
    (rosters : w'.kernel.notifier.roster = w.kernel.notifier.roster)
    (verdicts : Holdings.verdict w.kernel.tree.find p flags' none
      = Holdings.verdict w.kernel.tree.find p flags none) :
    (∃ f, w.arm p flags = (.error f, w.kernel) ∧ w'.arm p flags' = (.error f, w'.kernel)) ∨
    ∃ i h, Holdings.verdict w.kernel.tree.find p flags none = .ok i ∧
      (w.kernel.notifier.grant i flags).1 = .ok h ∧
      w.arm p flags = (.ok h, { w.kernel with notifier := (w.kernel.notifier.grant i flags).2 }) ∧
      w'.arm p flags' = (.ok h, { w'.kernel with notifier := (w'.kernel.notifier.grant i flags').2 }) := by
  rw [arm_eq_verdict isOpen, arm_eq_verdict isOpen', trees, verdicts]
  cases Holdings.verdict w.kernel.tree.find p flags none with
  | error cause => exact .inl ⟨_, rfl, rfl⟩
  | ok i =>
    have hsame := (Notifier.grant_congr rosters i flags' flags).1
    simp only [hsame]
    cases hgrant : (w.kernel.notifier.grant i flags).1 with
    | error e => exact .inl ⟨_, rfl, rfl⟩
    | ok h => exact .inr ⟨i, h, rfl, hgrant, rfl, rfl⟩

end Watcher

/-! ## One after the other -/

namespace Watcher

/-- What a request gets, if it ever gets anything, when nobody else is there. -/
def serve (w : Watcher) : Interplay.Request → Option Errand.Outcome × Watcher
  | .add p o => (some (.done (w.add p o).1), (w.add p o).2)
  | .remove p => ((w.remove p).1.map .done, (w.remove p).2)
  | .list => (some (.listed w.watchList), w)
  | .close => (some (.done w.close.1), w.close.2)

/-- One request after the other. -/
def serveAll (w : Watcher) (requests : List Interplay.Request) : Watcher :=
  requests.foldl (fun w q => (w.serve q).2) w

@[simp] theorem serveAll_nil (w : Watcher) : w.serveAll [] = w := rfl

theorem serveAll_concat (w : Watcher) (requests : List Interplay.Request) (q : Interplay.Request) :
    w.serveAll (requests ++ [q]) = ((w.serveAll requests).serve q).2 :=
  List.foldl_concat ..

/-- A watcher at work that has nothing to catch up with. -/
structure Quiet (find : Bool → Path → Except Errno Inode) (w : Watcher) : Prop where
  atWork : w.reader.AtWork
  paid : w.reader.drops = []
  phase : w.phase = .running
  silent : w.kernel.notifier.queue = []
  room : 0 < w.kernel.notifier.limit
  tree : w.kernel.tree.find = find
  paired : w.table.Paired

namespace Quiet

variable {find : Bool → Path → Except Errno Inode} {w : Watcher} {p : Path} {o : WatchOptions}
  {h : Handle}

theorem ensureOpen (quiet : w.Quiet find) : w.ensureOpen = .ok () := by
  unfold Watcher.ensureOpen
  rw [quiet.atWork.running, quiet.phase]
  rfl

section Add

variable {wanted : Mask} {known : Bool} (quiet : w.Quiet find)
  (demand : w.table.demand p.normalize o.flags = (wanted, known))

include quiet demand

theorem add_of_error {f : Failure}
    (refused : w.arm p.normalize (Interplay.armed wanted known) = (.error f, w.kernel)) :
    w.add p o = (.error f, w) := by
  unfold Interplay.armed at refused
  unfold Watcher.add
  rw [quiet.ensureOpen]
  simp only [enroll, WatchTable.register, demand, refused]
  rfl

theorem add_of_ok {n : Notifier} (granted : w.arm p.normalize (Interplay.armed wanted known)
      = (.ok h, { w.kernel with notifier := n })) :
    w.add p o = (.ok (), ({ w with kernel := { w.kernel with notifier := n } } : Watcher).withTable
      (w.table.insert p.normalize ⟨h, wanted⟩)) := by
  unfold Interplay.armed at granted
  unfold Watcher.add
  rw [quiet.ensureOpen]
  simp only [enroll, WatchTable.register, demand, granted]
  rfl

end Add

/-- A watcher that was granted what it asked for is as quiet as before. -/
theorem of_grant (quiet : w.Quiet find) {i : Inode} {flags : Mask} {v : Watch}
    (granted : (w.kernel.notifier.grant i flags).1 = .ok h) :
    (({ w with kernel := { w.kernel with
        notifier := (w.kernel.notifier.grant i flags).2 } } : Watcher).withTable
      (w.table.insert p v)).Quiet find where
  atWork := ⟨quiet.atWork.running, quiet.atWork.unclosed, quiet.atWork.isOpen⟩
  paid := quiet.paid
  phase := quiet.phase
  silent := (Notifier.queue_grant granted).trans quiet.silent
  room := by
    show 0 < (w.kernel.notifier.grant i flags).2.limit
    rw [Notifier.limit_grant]
    exact quiet.room
  tree := quiet.tree
  paired := quiet.paired.insert p v

theorem remove_of_absent (quiet : w.Quiet find)
    (absent : w.table.handleOf? p.normalize = none) :
    w.remove p = (some (.error (.notWatched p.normalize)), w) := by
  unfold Watcher.remove
  rw [quiet.ensureOpen]
  simp only [absent]

/-- The reader takes up the last record of a watch, which is all that is queued. -/
theorem sip_lastRecord {v : Watcher} (paired : v.table.Paired) (paid : v.reader.drops = [])
    (queue : v.kernel.notifier.queue = [Notifier.lastRecord h]) :
    v.sip = (v.withQueue []).withTable (v.table.without [h]) := by
  have hdispatched : v.reader.dispatched v.kernel.tree.pathExists (Notifier.lastRecord h)
      = { v.reader with table := v.table.without [h] } := by
    have hpurge := congrArg Prod.snd (paired.removeHandle_eq h)
    rw [Reader.dispatched, Notifier.lastRecord_isTold, if_neg Bool.false_ne_true,
      Notifier.lastRecord_isLast, if_pos rfl]
    exact congrArg (fun table => { v.reader with table }) hpurge
  simp only [sip, queue, hdispatched]
  exact carryOut_of_paid _ paid

/-- **A removal is confirmed by the one record that it has caused.** -/
theorem remove_of_found (quiet : w.Quiet find) (found : w.table.handleOf? p.normalize = some h)
    (live : w.kernel.notifier.isLive h = true) : (w.remove p).1 = some (.ok ()) ∧
      (w.remove p).2.Quiet find ∧ (w.remove p).2.table = w.table.without [h] ∧
      (w.remove p).2.kernel.notifier.roster = (w.kernel.notifier.revoke h).2.roster := by
  have hroom : w.kernel.notifier.queue.length < w.kernel.notifier.limit := by
    rw [quiet.silent]
    exact quiet.room
  have hqueue : (w.kernel.notifier.revoke h).2.queue = [Notifier.lastRecord h] := by
    rw [Notifier.queue_revoke_of_room live hroom, quiet.silent]
    rfl
  -- The reader takes up the last record of the watch, and has caught up.
  obtain ⟨v, hv⟩ : ∃ v : Watcher, { w with kernel := (w.kernel.unwatch h).2 } = v := ⟨_, rfl⟩
  have hnotifier : v.kernel.notifier = (w.kernel.notifier.revoke h).2 := by rw [← hv]; rfl
  have hrest : v.kernel.notifier.queue = [Notifier.lastRecord h] := by rw [hnotifier, hqueue]
  have hfluent : v.Fluent := by
    refine ⟨hv ▸ quiet.atWork, hv ▸ quiet.paid, ?_, ?_⟩
    · intro q hq
      rw [hrest, List.mem_singleton] at hq
      exact hq ▸ .of_name_none rfl
    · rw [hnotifier, hqueue, Notifier.limit_revoke]
      exact quiet.room
  have hsip : v.sip = (v.withQueue []).withTable (w.table.without [h]) := by
    have htable : v.table = w.table := by rw [← hv]; rfl
    rw [sip_lastRecord (htable ▸ quiet.paired) hfluent.paid hrest, htable]
  have hsettle : v.settle = v.sip := by
    rw [hfluent.settle_eq_sips]
    refine sip_iterate_of_drained (j := 1) ?_ ?_
    · show v.sip.kernel.notifier.queue = []
      rw [hsip]
      rfl
    · rw [ahead, hrest, List.length_singleton]
      exact Nat.le_add_right 1 _
  have hremove : w.remove p = (some (.ok ()), v.sip) := by
    unfold Watcher.remove
    rw [quiet.ensureOpen]
    have howns : v.sip.table.owns p.normalize h = false := by
      rw [hsip]
      show (w.table.without [h]).owns p.normalize h = false
      unfold WatchTable.owns
      rw [WatchTable.resolve?_without, if_pos (List.mem_singleton_self h)]
    simp only [found, release, quiet.atWork.isOpen, if_true, hv, hsettle, await, WatchTable.wait,
      howns, Bool.not_false]
  rw [hremove, hsip, ← hv]
  refine ⟨rfl, ⟨⟨quiet.atWork.running, quiet.atWork.unclosed, quiet.atWork.isOpen⟩, quiet.paid,
    quiet.phase, rfl, ?_, quiet.tree, quiet.paired.without [h]⟩, rfl, rfl⟩
  show 0 < (w.kernel.notifier.revoke h).2.limit
  rw [Notifier.limit_revoke]
  exact quiet.room

end Quiet

end Watcher

end FileWatch
