import FileWatch.Proofs.Record.KernelBytes

/-!
# Reads

The kernel fills a buffer with whole records, as many as fit, so how a stream of records is cut into
reads depends on the size of the buffer and on the moment.  The reader does not depend on it: a record
that ends a read leaves the reader as it leaves it in the middle of one (`dispatchAll_append`), and so
the reads of a list of groups are one read of all the groups (`polled_wire`).

What the kernel does is a case of it.  No buffer is too small for one record, so every read brings at
least one, and the groups that it makes are a cutting of the queue (`polledFrom_eq`).
-/

namespace FileWatch

/-- What a read takes fits into the buffer, and nothing longer would. -/
theorem Notifier.batch_longest (capacity : Nat) (rs : List Record) :
    ((batch capacity rs).1.flatMap Record.kernelBytes).length ≤ capacity ∧
      ∀ front, front <+: rs → (front.flatMap Record.kernelBytes).length ≤ capacity →
        front <+: (batch capacity rs).1 := by
  induction rs generalizing capacity with
  | nil => exact ⟨Nat.zero_le _, fun front hfront _ => hfront⟩
  | cons r rest ih =>
    unfold batch
    by_cases hfits : r.kernelBytes.length ≤ capacity
    · obtain ⟨hlength, hlongest⟩ := ih (capacity - r.kernelBytes.length)
      simp only [if_pos hfits, List.flatMap_cons, List.length_append]
      refine ⟨by omega, ?_⟩
      intro front hfront hbytes
      cases front with
      | nil => exact List.nil_prefix
      | cons q more =>
        obtain ⟨rfl, hmore⟩ := List.cons_prefix_cons.mp hfront
        rw [List.flatMap_cons, List.length_append] at hbytes
        exact List.cons_prefix_cons.mpr ⟨rfl, hlongest more hmore (by omega)⟩
    · simp only [if_neg hfits]
      refine ⟨Nat.zero_le _, ?_⟩
      intro front hfront hbytes
      cases front with
      | nil => exact List.nil_prefix
      | cons q more =>
        obtain ⟨rfl, -⟩ := List.cons_prefix_cons.mp hfront
        rw [List.flatMap_cons, List.length_append] at hbytes
        omega

/-- Something is taken, if every record fits alone. -/
theorem Notifier.batch_takes {capacity : Nat} {rs : List Record} (hne : rs ≠ [])
    (hfits : ∀ q ∈ rs, q.kernelBytes.length ≤ capacity) : (batch capacity rs).1 ≠ [] := by
  cases rs with
  | nil => exact absurd rfl hne
  | cons q rest =>
    apply batch_ne_nil
    exact hfits q List.mem_cons_self

theorem Notifier.read_eq {n : Notifier} {capacity : Nat} (hne : n.queue ≠ [])
    (hfits : ∀ q ∈ n.queue, q.kernelBytes.length ≤ capacity) :
    ∃ taken left, taken ≠ [] ∧ n.queue = taken ++ left ∧
      n.read capacity = (taken.flatMap Record.kernelBytes, { n with queue := left }) :=
  ⟨_, _, batch_takes hne hfits, (batch_append capacity n.queue).symm, rfl⟩

namespace Reader

variable (pathExists : Path → Bool)

/-! ## What good records do to any reader -/

/-- The outcome of some good records: the reader has not ended and was not told to close meanwhile, it
goes on unless it was told so before, and what it reports is not about bytes. -/
structure Handled (r : Reader) (x : Bool × Reader) : Prop where
  running : x.2.running = r.running
  closing : x.2.closing = r.closing
  goes : r.closing = false → x.1 = true
  errors : ∃ fs, x.2.errors.sent = r.errors.sent ++ fs ∧ ∀ m, .malformed m ∉ fs

namespace Handled

variable {r : Reader}

theorem refl (r : Reader) : r.Handled (true, r) :=
  ⟨rfl, rfl, fun _ => rfl, [], (List.append_nil _).symm, nofun⟩

theorem trans {x y : Bool × Reader} (hx : r.Handled x) (hy : x.2.Handled y) : r.Handled y := by
  obtain ⟨fs, hfs, hgood⟩ := hx.errors
  obtain ⟨gs, hgs, hgood'⟩ := hy.errors
  refine ⟨hy.running.trans hx.running, hy.closing.trans hx.closing, ?_, fs ++ gs, ?_, ?_⟩
  · intro h
    exact hy.goes (hx.closing.trans h)
  · rw [hgs, hfs, List.append_assoc]
  · intro m hm
    rcases List.mem_append.mp hm with hm | hm
    · exact hgood m hm
    · exact hgood' m hm

/-- Whatever follows is not reached by a reader that does not go on. -/
theorem bind {x : Bool × Reader} {f : Reader → Bool × Reader} (hx : r.Handled x)
    (hf : ∀ q : Reader, q.Handled (f q)) : r.Handled (if x.1 then f x.2 else (false, x.2)) := by
  cases hgo : x.1 with
  | true => exact hx.trans (hf x.2)
  | false =>
    refine ⟨hx.running, hx.closing, ?_, hx.errors⟩
    intro h
    rw [hx.goes h] at hgo
    cases hgo

end Handled

theorem handled_report (r : Reader) {f : Failure} (hf : ∀ m, .malformed m ≠ f) :
    r.Handled (r.report f) := by
  unfold report
  split
  · rename_i hclosing
    refine ⟨rfl, rfl, ?_, [], (List.append_nil _).symm, nofun⟩
    intro h
    rw [h] at hclosing
    cases hclosing
  · refine ⟨rfl, rfl, fun _ => rfl, ?_⟩
    show ∃ fs, (r.errors.send f).sent = _ ∧ _
    unfold Outlet.send
    split
    · exact ⟨[f], rfl, fun m hm => hf m (List.mem_singleton.mp hm)⟩
    · exact ⟨[], (List.append_nil _).symm, nofun⟩

theorem handled_deliver (r : Reader) (e : Event) : r.Handled (r.deliver e) := by
  unfold deliver
  split
  · rename_i hclosing
    refine ⟨rfl, rfl, ?_, [], (List.append_nil _).symm, nofun⟩
    intro h
    rw [h] at hclosing
    cases hclosing
  · exact ⟨rfl, rfl, fun _ => rfl, [], (List.append_nil _).symm, nofun⟩

theorem handled_drop (r : Reader) (h : Handle) : r.Handled (r.drop h) := by
  unfold drop
  split
  · exact ⟨rfl, rfl, fun _ => rfl, [], (List.append_nil _).symm, nofun⟩
  · exact r.handled_report nofun

theorem handled_announce (r : Reader) (rec : Record) : r.Handled (r.announce pathExists rec) := by
  unfold announce
  split
  · exact .refl r
  split
  · exact .refl r
  · exact r.handled_deliver _

theorem handled_dispatch (r : Reader) (rec : Record) : r.Handled (r.dispatch pathExists rec) := by
  unfold dispatch
  split
  · exact r.handled_report nofun
  split
  · exact ⟨rfl, rfl, fun _ => rfl, [], (List.append_nil _).symm, nofun⟩
  · have hmoved : r.Handled
        (if rec.mask.has Mask.moveSelf && rec.name.isNone then r.drop rec.handle else (true, r)) := by
      split
      · exact r.handled_drop rec.handle
      · exact .refl r
    generalize (if rec.mask.has Mask.moveSelf && rec.name.isNone then r.drop rec.handle
      else (true, r)) = x at hmoved
    obtain ⟨go, q⟩ := x
    cases go with
    | false => exact hmoved
    | true =>
      apply hmoved.trans
      show q.Handled (if _ then (true, q) else q.announce pathExists rec)
      split
      · exact .refl q
      · exact q.handled_announce pathExists rec

theorem handled_dispatchAll (r : Reader) (rs : List Record) :
    r.Handled (r.dispatchAll pathExists (rs.map .ok)) := by
  induction rs generalizing r with
  | nil => exact .refl r
  | cons rec rest ih => exact (r.handled_dispatch pathExists rec).bind ih

/-! ## Reads -/

theorem dispatchAll_append (r : Reader) (rs : List Record)
    (items : List (Except Malformation Record)) : r.dispatchAll pathExists (rs.map .ok ++ items)
      = if (r.dispatchAll pathExists (rs.map .ok)).1
        then (r.dispatchAll pathExists (rs.map .ok)).2.dispatchAll pathExists items
        else (false, (r.dispatchAll pathExists (rs.map .ok)).2) := by
  induction rs generalizing r with
  | nil => rfl
  | cons rec rest ih =>
    rw [List.map_cons, List.cons_append, dispatchAll, dispatchAll]
    cases hgo : (r.dispatch pathExists rec).1 with
    | false => simp [hgo]
    | true => simp only [hgo, if_true, ih]

/-- Read after read, until the reader ends. -/
def polled (r : Reader) (reads : List Bytes) : Reader :=
  reads.foldl (fun r bytes => if r.running then r.turn pathExists bytes else r) r

theorem polled_append (r : Reader) (xs ys : List Bytes) :
    r.polled pathExists (xs ++ ys) = (r.polled pathExists xs).polled pathExists ys :=
  List.foldl_append

theorem polled_of_ended {r : Reader} (ended : r.running = false) (reads : List Bytes) :
    r.polled pathExists reads = r := by
  induction reads with
  | nil => rfl
  | cons bytes rest ih =>
    rw [polled, List.foldl_cons, ended]
    exact ih

theorem polled_singleton {r : Reader} (running : r.running = true) (bytes : Bytes) :
    r.polled pathExists [bytes] = r.turn pathExists bytes := if_pos running

theorem turn_wire (r : Reader) {fs : List Frame} (hne : fs ≠ []) :
    r.turn pathExists (Frame.wire fs)
      = if (r.dispatchAll pathExists ((fs.map Frame.record).map .ok)).1
        then (r.dispatchAll pathExists ((fs.map Frame.record).map .ok)).2
        else (r.dispatchAll pathExists ((fs.map Frame.record).map .ok)).2.stop := by
  unfold turn
  rw [read_eq, itemsOf_wire, if_neg (by simpa using hne)]

/-- **Two reads are one.** -/
theorem polled_wire_append (r : Reader) {fs gs : List Frame} (hfs : fs ≠ []) (hgs : gs ≠ []) :
    r.polled pathExists [Frame.wire fs, Frame.wire gs]
      = r.polled pathExists [Frame.wire (fs ++ gs)] := by
  cases hrunning : r.running with
  | false => rw [polled_of_ended pathExists hrunning, polled_of_ended pathExists hrunning]
  | true =>
    have hhandled := r.handled_dispatchAll pathExists (fs.map Frame.record)
    rw [show [Frame.wire fs, Frame.wire gs] = [Frame.wire fs] ++ [Frame.wire gs] from rfl,
      polled_append, polled_singleton pathExists hrunning, polled_singleton pathExists hrunning,
      turn_wire pathExists r hfs, turn_wire pathExists r (List.append_ne_nil_of_left_ne_nil hfs gs),
      List.map_append, List.map_append, dispatchAll_append]
    -- The second read goes on where the first one stopped, or is not made.
    cases hgo : (r.dispatchAll pathExists ((fs.map Frame.record).map .ok)).1 with
    | false => exact polled_of_ended pathExists rfl _
    | true =>
      simp only [if_true]
      rw [polled_singleton pathExists (hhandled.running.trans hrunning), turn_wire pathExists _ hgs]

/-- **Any number of reads are one.** -/
theorem polled_wire (r : Reader) {groups : List (List Frame)} (hne : groups ≠ [])
    (hnil : [] ∉ groups) : r.polled pathExists (groups.map Frame.wire)
      = r.polled pathExists [Frame.wire groups.flatten] := by
  induction groups generalizing r with
  | nil => exact absurd rfl hne
  | cons g rest ih =>
    cases rest with
    | nil => rw [List.map_singleton, List.flatten_singleton]
    | cons g' rest =>
      have hg : g ≠ [] := fun h => hnil (h ▸ List.mem_cons_self)
      have hrest : [] ∉ g' :: rest := fun h => hnil (List.mem_cons_of_mem _ h)
      have hflat : (g' :: rest).flatten ≠ [] := by
        intro h
        exact hrest (List.flatten_eq_nil_iff.mp h g' List.mem_cons_self ▸ List.mem_cons_self)
      calc r.polled pathExists ((g :: g' :: rest).map Frame.wire)
          = (r.polled pathExists [Frame.wire g]).polled pathExists ((g' :: rest).map Frame.wire) := rfl
        _ = (r.polled pathExists [Frame.wire g]).polled pathExists
              [Frame.wire (g' :: rest).flatten] := ih _ (List.cons_ne_nil _ _) hrest
        _ = r.polled pathExists [Frame.wire g, Frame.wire (g' :: rest).flatten] := rfl
        _ = r.polled pathExists [Frame.wire (g ++ (g' :: rest).flatten)] :=
              r.polled_wire_append pathExists hg hflat

/-! ## Reads of the kernel's queue -/

/-- Read after read of so many bytes, and at most so often, while the reader runs and something is there
to be read. -/
def polledFrom (capacity : Nat) : Nat → Reader → Notifier → Reader × Notifier
  | 0, r, n => (r, n)
  | k + 1, r, n =>
    if r.running && !n.queue.isEmpty then
      polledFrom capacity k (r.turn pathExists (n.read capacity).1) (n.read capacity).2
    else (r, n)

/-- One read of all there is, if there is something. -/
def once (rs : List Record) : List Bytes :=
  if rs.isEmpty then [] else [rs.flatMap Record.kernelBytes]

theorem polled_once_append (r : Reader) {rs qs : List Record} (hne : rs ≠ [])
    (hformed : ∀ q ∈ rs ++ qs, q.WellFormed) :
    (r.polled pathExists (once rs)).polled pathExists (once qs)
      = r.polled pathExists (once (rs ++ qs)) := by
  obtain ⟨fs, rfl, hfs⟩ := exists_frames fun q hq => hformed q (List.mem_append_left qs hq)
  obtain ⟨gs, rfl, hgs⟩ := exists_frames fun q hq => hformed q (List.mem_append_right _ hq)
  have hfs_ne : fs ≠ [] := fun h => hne (by rw [h, List.map_nil])
  unfold once
  rw [List.flatMap_append, ← hfs, ← hgs, ← List.map_append, List.isEmpty_map, List.isEmpty_map,
    List.isEmpty_map, List.isEmpty_eq_false_iff.mpr hfs_ne,
    List.isEmpty_eq_false_iff.mpr (List.append_ne_nil_of_left_ne_nil hfs_ne gs)]
  cases gs with
  | nil => simp [polled, Frame.wire]
  | cons g gs =>
    have happend := r.polled_wire_append pathExists hfs_ne (List.cons_ne_nil g gs)
    rw [show Frame.wire (fs ++ g :: gs) = Frame.wire fs ++ Frame.wire (g :: gs) from
      List.flatMap_append] at happend
    exact happend

/-- **The reads of a queue are one read of it**, whatever the buffer, if only it holds every record
alone; and a reader that nobody closes leaves nothing in the queue. -/
theorem polledFrom_eq {capacity k : Nat} (r : Reader) {n : Notifier}
    (hformed : ∀ q ∈ n.queue, q.WellFormed)
    (hfits : ∀ q ∈ n.queue, q.kernelBytes.length ≤ capacity) (hk : n.queue.length ≤ k) :
    (polledFrom pathExists capacity k r n).1 = r.polled pathExists (once n.queue) ∧
      (r.running = true → r.closing = false →
        (polledFrom pathExists capacity k r n).2.queue = []) := by
  -- By induction on how many reads are left.  What the first one takes is a group of its own, and the
  -- others read the rest as if it were the whole queue.
  induction k generalizing r n with
  | zero =>
    have hempty : n.queue = [] := List.length_eq_zero_iff.mp (Nat.le_zero.mp hk)
    refine ⟨?_, fun _ _ => hempty⟩
    rw [hempty]
    rfl
  | succ k ih =>
    unfold polledFrom
    cases hrunning : r.running with
    | false =>
      refine ⟨?_, nofun⟩
      rw [polled_of_ended pathExists hrunning]
      rfl
    | true =>
      by_cases hne : n.queue = []
      · rw [hne]
        exact ⟨rfl, fun _ _ => hne⟩
      · obtain ⟨taken, left, htaken, hqueue, hread⟩ := Notifier.read_eq hne hfits
        rw [Bool.true_and, if_pos (by simpa using hne), hread]
        have hleft : ∀ {q}, q ∈ left → q ∈ n.queue := by
          intro q hq
          rw [hqueue]
          exact List.mem_append_right taken hq
        have hshorter : left.length ≤ k := by
          have := List.length_pos_iff.mpr htaken
          rw [hqueue, List.length_append] at hk
          omega
        obtain ⟨hrest, hdrained⟩ := ih (r.turn pathExists (taken.flatMap Record.kernelBytes))
          (n := { n with queue := left }) (fun q hq => hformed q (hleft hq))
          (fun q hq => hfits q (hleft hq)) hshorter
        have honce : r.polled pathExists (once taken)
            = r.turn pathExists (taken.flatMap Record.kernelBytes) := by
          rw [once, if_neg (by simpa using htaken), polled_singleton pathExists hrunning]
        refine ⟨?_, ?_⟩
        · rw [hrest, ← honce, hqueue]
          exact r.polled_once_append pathExists htaken (hqueue ▸ hformed)
        · intro _ hclosing
          obtain ⟨fs, rfl, hfs⟩ := exists_frames fun q hq =>
            hformed q (hqueue ▸ List.mem_append_left left hq)
          have hhandled := r.handled_dispatchAll pathExists (fs.map Frame.record)
          have hfs_ne : fs ≠ [] := fun h => htaken (by rw [h, List.map_nil])
          have hturn := r.turn_wire pathExists hfs_ne
          rw [if_pos (hhandled.goes hclosing), hfs] at hturn
          apply hdrained
          · rw [hturn, hhandled.running, hrunning]
          · rw [hturn, hhandled.closing, hclosing]

/-- What is reported in reads of the queue is not about bytes. -/
theorem errors_polled_once (r : Reader) {rs : List Record} (hformed : ∀ q ∈ rs, q.WellFormed) :
    ∃ fs, (r.polled pathExists (once rs)).errors.sent = r.errors.sent ++ fs ∧
      ∀ m, .malformed m ∉ fs := by
  by_cases hne : rs = []
  · rw [hne]
    exact ⟨[], (List.append_nil _).symm, nofun⟩
  cases hrunning : r.running with
  | false =>
    rw [polled_of_ended pathExists hrunning]
    exact ⟨[], (List.append_nil _).symm, nofun⟩
  | true =>
    obtain ⟨fs, rfl, hfs⟩ := exists_frames hformed
    rw [once, if_neg (by simpa using hne), polled_singleton pathExists hrunning, ← hfs,
      turn_wire pathExists r fun h => hne (by rw [h, List.map_nil])]
    have herrors := (r.handled_dispatchAll pathExists (fs.map Frame.record)).errors
    split
    · exact herrors
    · exact herrors

end Reader

end FileWatch
