import FileWatch.Proofs.Kernel.Notifier
import FileWatch.Proofs.Reader.Dispatch
import FileWatch.Proofs.Reader.Drops
import FileWatch.Proofs.Reader.Reads
import Mathlib.Logic.Function.Iterate

/-!
# Where a read ends makes no difference

A reader does not notice where a read ends (`Reader.polled_wire`).  But it also gives the kernel
something to do: the watch of a thing that moved is dropped, and the record that says so comes last in
the queue.  There a small buffer makes a difference, of when a watch is dropped, and it shows in nothing.
A turn of the watcher is as many turns of one record as the read has brought (`turn_eq_sips`), and as
long as the queue has room it does not matter when they are made (`settle_eq_sips`).
-/

namespace FileWatch

/-- Where there is room, the last record of a watch that is dropped comes behind whatever is queued. -/
theorem Notifier.revoke_of_room {n : Notifier} {q : List Record} (h : Handle)
    (room : q.length < n.limit) : ({ n with queue := q }.revoke h).2
      = { (n.revoke h).2 with queue := q ++ if n.isLive h then [lastRecord h] else [] } := by
  unfold revoke
  rw [show isLive { n with queue := q } h = n.isLive h from rfl]
  cases n.isLive h with
  | false => simp
  | true =>
    rw [if_pos rfl, if_pos rfl, if_pos rfl, post_eq (n := { n with watches := _ }), post, if_pos room]
    rfl

namespace Watcher

/-- The watcher with other records in the kernel's queue. -/
def withQueue (w : Watcher) (q : List Record) : Watcher :=
  { w with kernel := { w.kernel with notifier := { w.kernel.notifier with queue := q } } }

/-- A turn of one record. -/
def sip (w : Watcher) : Watcher :=
  match w.kernel.notifier.queue with
  | [] => w
  | rec :: rest =>
    (w.withQueue rest).carryOut (w.reader.dispatched w.kernel.tree.pathExists rec)

/-- A watcher whose reader is at work and owes nothing, over a queue that has not overflowed. -/
structure Fluent (w : Watcher) : Prop where
  atWork : w.reader.AtWork
  paid : w.reader.drops = []
  formed : ∀ q ∈ w.kernel.notifier.queue, q.WellFormed
  room : w.kernel.notifier.queue.length ≤ w.kernel.notifier.limit

/-- At most one watch is wanted dropped because of a record. -/
theorem drops_dispatched (pathExists : Path → Bool) {r : Reader} (paid : r.drops = [])
    (rec : Record) : (r.dispatched pathExists rec).drops = [] ∨
      ∃ h, (r.dispatched pathExists rec).drops = [h] := by
  unfold Reader.dispatched
  split
  · exact .inl paid
  split
  · exact .inl paid
  split
  · refine .inr ⟨rec.handle, ?_⟩
    rw [Reader.drops_told, paid]
    rfl
  · rw [Reader.drops_told]
    exact .inl paid

/-- What a record makes the kernel do, over any queue with room: some watches are dropped, and as many
records come last. -/
theorem carryOut_withQueue (w : Watcher) {r : Reader} (hdrops : r.drops = [] ∨ ∃ h, r.drops = [h]) :
    ∃ last : List Record, last.length ≤ 1 ∧ (∀ q ∈ last, q.WellFormed) ∧
      (w.carryOut r).kernel.notifier.limit = w.kernel.notifier.limit ∧
      (w.carryOut r).kernel.notifier.watches.length + last.length
        ≤ w.kernel.notifier.watches.length ∧
      ∀ q, q.length < w.kernel.notifier.limit →
        (w.withQueue q).carryOut r = (w.carryOut r).withQueue (q ++ last) := by
  rcases hdrops with hnone | ⟨h, hone⟩
  · refine ⟨[], Nat.zero_le _, nofun, ?_, ?_, ?_⟩
    · rw [carryOut_of_paid w hnone]
    · rw [carryOut_of_paid w hnone]
      exact Nat.le_refl _
    · intro q _
      rw [carryOut_of_paid w hnone, carryOut_of_paid _ hnone, List.append_nil]
      rfl
  · have hkernel : ∀ v : Watcher, (v.carryOut r).kernel
        = { v.kernel with notifier := (v.kernel.notifier.revoke h).2 } := by
      intro v
      unfold carryOut
      rw [hone]
      rfl
    refine ⟨if w.kernel.notifier.isLive h then [Notifier.lastRecord h] else [], ?_, ?_, ?_, ?_, ?_⟩
    · split
      · exact Nat.le_refl _
      · exact Nat.zero_le _
    · split
      · intro q hq
        rw [List.mem_singleton.mp hq]
        exact .of_name_none rfl
      · exact nofun
    · rw [hkernel]
      exact Notifier.limit_revoke h
    · rw [hkernel]
      simp only [Notifier.watches_revoke]
      split
      · rename_i hlive
        apply List.length_filter_lt_length_iff_exists.mpr
        obtain ⟨v, hv, hhandle⟩ := Notifier.isLive_iff.mp hlive
        exact ⟨v, hv, by simpa using hhandle⟩
      · exact List.length_filter_le _ _
    · intro q room
      have hrevoke := Notifier.revoke_of_room h room
      show (⟨w.settings, w.phase, ((w.withQueue q).carryOut r).kernel, _⟩ : Watcher) = _
      rw [hkernel]
      unfold withQueue
      simp only [hrevoke, hkernel]
      rfl

/-- Turns of one record are what a read of all of them is. -/
theorem sip_iterate {w : Watcher} (atWork : w.reader.AtWork) (paid : w.reader.drops = [])
    (taken left : List Record) (room : (taken ++ left).length ≤ w.kernel.notifier.limit) :
    sip^[taken.length] (w.withQueue (taken ++ left)) = (w.withQueue left).carryOut
      (w.reader.dispatchAll w.kernel.tree.pathExists (taken.map .ok)).2 := by
  induction taken generalizing w left with
  | nil => exact ((w.withQueue left).carryOut_of_paid paid).symm
  | cons rec more ih =>
    have hatWork := atWork.dispatched w.kernel.tree.pathExists rec
    obtain ⟨last, hlast, -, hlimit, -, hcarry⟩ := w.carryOut_withQueue
      (drops_dispatched w.kernel.tree.pathExists paid rec)
    generalize hd : w.reader.dispatched w.kernel.tree.pathExists rec = d at hatWork hlimit hcarry
    have hroom : (more ++ left).length < w.kernel.notifier.limit := room
    have hroom' : left.length < w.kernel.notifier.limit := by
      rw [List.length_append] at hroom
      omega
    have hsip : sip (w.withQueue (rec :: more ++ left)) = (w.carryOut d).withQueue (more ++ left ++ last) := by
      rw [← hcarry _ hroom, ← hd]
      rfl
    calc sip^[more.length + 1] (w.withQueue (rec :: more ++ left))
        = sip^[more.length] ((w.carryOut d).withQueue (more ++ (left ++ last))) := by
          rw [Function.iterate_succ_apply, hsip, List.append_assoc]
      _ = ((w.carryOut d).withQueue (left ++ last)).carryOut ((w.carryOut d).reader.dispatchAll
            (w.carryOut d).kernel.tree.pathExists (more.map .ok)).2 := by
          apply ih (w := w.carryOut d) ⟨hatWork.running, hatWork.unclosed, hatWork.isOpen⟩ rfl
          rw [hlimit, ← List.append_assoc, List.length_append]
          omega
      _ = ((w.withQueue left).carryOut d).carryOut (((w.withQueue left).carryOut d).reader.dispatchAll
            w.kernel.tree.pathExists (more.map .ok)).2 := by
          rw [← hcarry left hroom', tree_carryOut]
          rfl
      _ = (w.withQueue left).carryOut (d.dispatchAll w.kernel.tree.pathExists (more.map .ok)).2 :=
          carryOut_carryOut _ _ hatWork _
      _ = (w.withQueue left).carryOut
            (w.reader.dispatchAll w.kernel.tree.pathExists ((rec :: more).map .ok)).2 := by
          rw [List.map_cons, Reader.dispatchAll, Reader.dispatch_of_atWork _ atWork, hd]
          rfl

theorem sip_of_drained {w : Watcher} (drained : w.kernel.notifier.queue = []) : w.sip = w := by
  unfold sip
  rw [drained]

theorem sip_iterate_of_drained {w : Watcher} {j k : Nat}
    (drained : (sip^[j] w).kernel.notifier.queue = []) (hjk : j ≤ k) : sip^[k] w = sip^[j] w := by
  rw [← Nat.sub_add_cancel hjk, Function.iterate_add_apply]
  exact Function.iterate_fixed (sip_of_drained drained) _

theorem sip_settings (s : Settings) :
    Function.Commute (fun w : Watcher => { w with settings := s }) sip := by
  intro w
  unfold sip
  cases w.kernel.notifier.queue <;> rfl

/-- How many turns of one record there can be at most. -/
def ahead (w : Watcher) : Nat :=
  w.kernel.notifier.queue.length + w.kernel.notifier.watches.length

namespace Fluent

variable {w : Watcher}

/-- A turn of one record keeps the watcher fluent and brings its end nearer. -/
theorem sip (fluent : w.Fluent) :
    w.sip.Fluent ∧ (w.kernel.notifier.queue ≠ [] → w.sip.ahead < w.ahead) := by
  obtain ⟨atWork, paid, formed, room⟩ := fluent
  cases hqueue : w.kernel.notifier.queue with
  | nil =>
    rw [sip_of_drained hqueue]
    exact ⟨⟨atWork, paid, formed, room⟩, fun h => absurd rfl h⟩
  | cons rec rest =>
    rw [hqueue] at formed room
    rw [List.length_cons] at room
    obtain ⟨last, hlast, hformed, hlimit, hwatches, hcarry⟩ := w.carryOut_withQueue
      (drops_dispatched w.kernel.tree.pathExists paid rec)
    have hsip : w.sip = (w.carryOut (w.reader.dispatched w.kernel.tree.pathExists rec)).withQueue
        (rest ++ last) := by
      rw [← hcarry rest room]
      simp only [Watcher.sip, hqueue]
    have hatWork := atWork.dispatched w.kernel.tree.pathExists rec
    rw [hsip]
    refine ⟨⟨⟨hatWork.running, hatWork.unclosed, hatWork.isOpen⟩, rfl, ?_, ?_⟩, fun _ => ?_⟩
    · intro q hq
      rcases List.mem_append.mp hq with hq | hq
      · exact formed q (List.mem_cons_of_mem _ hq)
      · exact hformed q hq
    · show (rest ++ last).length ≤ (w.carryOut _).kernel.notifier.limit
      rw [hlimit, List.length_append]
      omega
    · show (rest ++ last).length + (w.carryOut _).kernel.notifier.watches.length < w.ahead
      rw [ahead, hqueue, List.length_append, List.length_cons]
      omega

theorem sip_iterate (fluent : w.Fluent) (k : Nat) : (Watcher.sip^[k] w).Fluent := by
  induction k generalizing w with
  | zero => exact fluent
  | succ k ih => exact ih fluent.sip.1

theorem drained (fluent : w.Fluent) {k : Nat} (hk : w.ahead ≤ k) :
    (Watcher.sip^[k] w).kernel.notifier.queue = [] := by
  induction k generalizing w with
  | zero => exact List.length_eq_zero_iff.mp (Nat.eq_zero_of_add_eq_zero_right (Nat.le_zero.mp hk))
  | succ k ih =>
    by_cases hqueue : w.kernel.notifier.queue = []
    · rw [Function.iterate_fixed (sip_of_drained hqueue)]
      exact hqueue
    · have := fluent.sip.2 hqueue
      exact ih fluent.sip.1 (by omega)

/-- A turn is as many turns of one record as the read has brought. -/
theorem turn_eq_sips (fluent : w.Fluent) :
    ∃ m, w.turn = Watcher.sip^[m] w ∧ (w.kernel.notifier.queue ≠ [] → 0 < m) := by
  by_cases hqueue : w.kernel.notifier.queue = []
  · refine ⟨0, ?_, fun h => absurd hqueue h⟩
    unfold turn
    rw [hqueue, List.isEmpty_nil, Bool.not_true, Bool.and_false]
    rfl
  · have hfits : ∀ q ∈ w.kernel.notifier.queue,
        q.kernelBytes.length ≤ w.settings.readBufferLength := fun q hq =>
      Nat.le_trans (fluent.formed q hq).length_kernelBytes_le (Nat.le_max_right _ _)
    obtain ⟨taken, left, htaken, hsplit, hread⟩ := Notifier.read_eq hqueue hfits
    refine ⟨taken.length, ?_, fun _ => List.length_pos_iff.mpr htaken⟩
    have hformed : ∀ q ∈ taken, q.WellFormed := fun q hq =>
      fluent.formed q (hsplit ▸ List.mem_append_left left hq)
    have hsips := Watcher.sip_iterate fluent.atWork fluent.paid taken left (hsplit ▸ fluent.room)
    rw [← hsplit, show w.withQueue w.kernel.notifier.queue = w from rfl] at hsips
    rw [hsips]
    unfold turn
    rw [fluent.atWork.running, Bool.true_and, if_pos (by simpa using hqueue)]
    unfold Kernel.read
    rw [hread]
    show (w.withQueue left).carryOut (w.reader.turn w.kernel.tree.pathExists
      (taken.flatMap Record.kernelBytes)) = _
    rw [Reader.turn_of_atWork _ fluent.atWork, Reader.itemsOf_kernelBytes hformed,
      if_neg (by simpa using htaken)]

theorem turns_eq_sips (fluent : w.Fluent) (k : Nat) : ∃ m, w.turns k = Watcher.sip^[m] w ∧
    (k ≤ m ∨ (Watcher.sip^[m] w).kernel.notifier.queue = []) := by
  induction k generalizing w with
  | zero => exact ⟨0, rfl, .inl (Nat.le_refl 0)⟩
  | succ k ih =>
    obtain ⟨m, hturn, hpos⟩ := fluent.turn_eq_sips
    obtain ⟨m', hturns, hfar⟩ := ih (w := w.turn) (hturn ▸ fluent.sip_iterate m)
    have hall : w.turns (k + 1) = Watcher.sip^[m' + m] w := by
      rw [Function.iterate_add_apply, ← hturn, ← hturns]
      rfl
    refine ⟨m' + m, hall, ?_⟩
    by_cases hqueue : w.kernel.notifier.queue = []
    · refine .inr ?_
      rw [Function.iterate_fixed (sip_of_drained hqueue)]
      exact hqueue
    · rcases hfar with hfar | hfar
      · have := hpos hqueue
        exact .inl (by omega)
      · refine .inr ?_
        rw [Function.iterate_add_apply, ← hturn]
        exact hfar

/-- **The reader catches up record by record**, whatever it is given to read in. -/
theorem settle_eq_sips (fluent : w.Fluent) : w.settle = Watcher.sip^[w.ahead] w := by
  obtain ⟨m, hturns, hfar⟩ := fluent.turns_eq_sips w.ahead
  have hend := fluent.drained (Nat.le_refl w.ahead)
  rw [show w.settle = w.turns w.ahead from rfl, hturns]
  rcases Nat.le_total w.ahead m with hle | hle
  · exact sip_iterate_of_drained hend hle
  · rcases hfar with hfar | hfar
    · exact sip_iterate_of_drained hend hfar
    · exact (sip_iterate_of_drained hfar hle).symm

/-- So the settings make no difference. -/
theorem settle_settings (fluent : w.Fluent) (s : Settings) :
    ({ w with settings := s } : Watcher).settle = { w.settle with settings := s } := by
  have hother : ({ w with settings := s } : Watcher).Fluent :=
    ⟨fluent.atWork, fluent.paid, fluent.formed, fluent.room⟩
  rw [hother.settle_eq_sips, fluent.settle_eq_sips]
  exact ((sip_settings s).iterate_right w.ahead w).symm

end Fluent

/-- What is reported meanwhile is not about bytes. -/
theorem Fluent.errors_settle {w : Watcher} (fluent : w.Fluent) :
    ∃ fs, w.settle.reader.errors.sent = w.reader.errors.sent ++ fs ∧ ∀ m, .malformed m ∉ fs := by
  rw [fluent.settle_eq_sips]
  generalize w.ahead = k
  induction k generalizing w with
  | zero => exact ⟨[], (List.append_nil _).symm, nofun⟩
  | succ k ih =>
    obtain ⟨fs, hfs, hgood⟩ := ih fluent.sip.1
    cases hqueue : w.kernel.notifier.queue with
    | nil =>
      rw [sip_of_drained hqueue] at hfs
      rw [Function.iterate_succ_apply, sip_of_drained hqueue]
      exact ⟨fs, hfs, hgood⟩
    | cons rec rest =>
      have hdispatch := w.reader.handled_dispatch w.kernel.tree.pathExists rec
      rw [Reader.dispatch_of_atWork _ fluent.atWork] at hdispatch
      obtain ⟨gs, hgs, hgood'⟩ := hdispatch.errors
      have hsip : w.sip.reader.errors.sent = w.reader.errors.sent ++ gs := by
        rw [← hgs]
        simp only [Watcher.sip, hqueue]
        rfl
      refine ⟨gs ++ fs, ?_, ?_⟩
      · rw [Function.iterate_succ_apply, hfs, hsip, List.append_assoc]
      · intro m hm
        rcases List.mem_append.mp hm with hm | hm
        · exact hgood' m hm
        · exact hgood m hm

end Watcher

/-- **Read boundaries are invisible.**

A reader in any state makes of any groups of records, each read by itself, what it makes of all of them
in one read.

Whatever the settings, the kernel fills each read with the longest run of records that fits, that is
never none, and reads until the queue is empty leave the reader as a buffer without an end would leave
it; none of what is reported is about bytes.

And while the watcher works, so that the watches that the reader wants dropped add to the queue, the
settings make no difference to the whole watcher. -/
theorem read_boundaries_invisible (pathExists : Path → Bool) :
    (∀ (r : Reader) (groups : List (List Frame)), groups ≠ [] → [] ∉ groups →
      r.polled pathExists (groups.map Frame.wire)
        = r.polled pathExists [Frame.wire groups.flatten]) ∧
    (∀ (s : Settings) (r : Reader) (n : Notifier), (∀ q ∈ n.queue, q.WellFormed) →
      ((n.read s.readBufferLength).1.length ≤ s.readBufferLength ∧
        (∀ front, front <+: n.queue →
          (front.flatMap Record.kernelBytes).length ≤ s.readBufferLength →
          front <+: (Notifier.batch s.readBufferLength n.queue).1) ∧
        (n.queue ≠ [] → (Notifier.batch s.readBufferLength n.queue).1 ≠ [])) ∧
      ∀ k, n.queue.length ≤ k →
        (∀ capacity, (n.queue.flatMap Record.kernelBytes).length ≤ capacity →
          (r.polledFrom pathExists s.readBufferLength k n).1
            = (r.polledFrom pathExists capacity k n).1) ∧
        (r.running = true → r.closing = false →
          (r.polledFrom pathExists s.readBufferLength k n).2.queue = []) ∧
        ∃ fs, (r.polledFrom pathExists s.readBufferLength k n).1.errors.sent = r.errors.sent ++ fs ∧
          ∀ m, .malformed m ∉ fs) ∧
    ∀ (w : Watcher), w.Fluent → ∀ (s : Settings),
      ({ w with settings := s } : Watcher).settle = { w.settle with settings := s } ∧
      w.settle.kernel.notifier.queue = [] ∧
      ∃ fs, w.settle.reader.errors.sent = w.reader.errors.sent ++ fs ∧ ∀ m, .malformed m ∉ fs := by
  refine ⟨fun r groups => r.polled_wire pathExists, ?_, ?_⟩
  · intro s r n hformed
    have hfits : ∀ q ∈ n.queue, q.kernelBytes.length ≤ s.readBufferLength := fun q hq =>
      Nat.le_trans (hformed q hq).length_kernelBytes_le (Nat.le_max_right _ _)
    obtain ⟨hlength, hlongest⟩ := Notifier.batch_longest s.readBufferLength n.queue
    refine ⟨⟨hlength, hlongest, fun hne => Notifier.batch_takes hne hfits⟩, ?_⟩
    intro k hk
    obtain ⟨hreader, hdrained⟩ := r.polledFrom_eq pathExists hformed hfits hk
    refine ⟨?_, hdrained, ?_⟩
    · intro capacity hcapacity
      have hwhole : ∀ q ∈ n.queue, q.kernelBytes.length ≤ capacity := by
        intro q hq
        obtain ⟨before, behind, hsplit⟩ := List.append_of_mem hq
        rw [hsplit, List.flatMap_append, List.flatMap_cons, List.length_append,
          List.length_append] at hcapacity
        omega
      rw [hreader, (r.polledFrom_eq pathExists hformed hwhole hk).1]
    · rw [hreader]
      exact r.errors_polled_once pathExists hformed
  · intro w fluent s
    refine ⟨fluent.settle_settings s, ?_, fluent.errors_settle⟩
    rw [fluent.settle_eq_sips]
    exact fluent.drained (Nat.le_refl _)

/-- The inner of two watched directories is moved away, and another one is made in its place. -/
def Reader.innerMove : List Record :=
  [⟨⟨1⟩, Mask.movedFrom ||| Mask.isDirectory, 7, some [0x73]⟩, ⟨⟨2⟩, Mask.moveSelf, 0, none⟩,
    ⟨⟨1⟩, Mask.create ||| Mask.isDirectory, 0, some [0x73]⟩]

def Reader.innerMoveFrames : List Frame :=
  innerMove.pmap (P := Record.WellFormed) (fun _ h => h.frame) (by decide)

/-- A watcher whose reader has yet to read of it; the watch that it will want dropped is live. -/
def Watcher.beforeInnerMove : Watcher :=
  { start .default ⟨.fresh, ⟨3, [⟨⟨1⟩, ⟨5⟩, Mask.request .portable⟩,
      ⟨⟨2⟩, ⟨6⟩, Mask.request .portable⟩], 2, Reader.innerMove⟩⟩ with
    reader := .watchingNested }

/-- Settings with a read buffer that would hold no record. -/
def Settings.starved : Settings := { Settings.default with readBufferBytes := 0 }

theorem read_boundaries_invisible_innerMove :
    (Reader.innerMoveFrames.map ([·]) ≠ [] ∧ [] ∉ Reader.innerMoveFrames.map ([·]) ∧
      Reader.watchingNested.polled (fun _ => true)
          ((Reader.innerMoveFrames.map ([·])).map Frame.wire)
        = Reader.watchingNested.polled (fun _ => true)
          [Frame.wire (Reader.innerMoveFrames.map ([·])).flatten]) ∧
    ((∀ q ∈ Watcher.beforeInnerMove.kernel.notifier.queue, q.WellFormed) ∧
      Watcher.beforeInnerMove.kernel.notifier.queue ≠ [] ∧
      (Notifier.batch Settings.starved.readBufferLength
        Watcher.beforeInnerMove.kernel.notifier.queue).1 ≠ []) ∧
    Watcher.beforeInnerMove.Fluent ∧
      ({ Watcher.beforeInnerMove with settings := .starved } : Watcher).settle
        = { Watcher.beforeInnerMove.settle with settings := .starved } ∧
      Watcher.beforeInnerMove.settle.kernel.notifier.queue = [] := by
  obtain ⟨hgroups, hqueue, hwatcher⟩ := read_boundaries_invisible fun _ => true
  have hformed : ∀ q ∈ Watcher.beforeInnerMove.kernel.notifier.queue, q.WellFormed := by decide
  have hne : Watcher.beforeInnerMove.kernel.notifier.queue ≠ [] := by decide
  have fluent : Watcher.beforeInnerMove.Fluent := ⟨⟨rfl, rfl, rfl⟩, rfl, hformed, by decide⟩
  have hsettle := hwatcher Watcher.beforeInnerMove fluent .starved
  refine ⟨⟨by decide, by simp, ?_⟩, ⟨hformed, hne, ?_⟩, fluent, hsettle.1, hsettle.2.1⟩
  · exact hgroups Reader.watchingNested (Reader.innerMoveFrames.map ([·])) (by decide) (by simp)
  · exact (hqueue .starved Reader.watchingNested Watcher.beforeInnerMove.kernel.notifier
      hformed).1.2.2 hne

end FileWatch
