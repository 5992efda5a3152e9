import Mathlib
import FileWatch.Proofs.Debounce.Bursts

/-!
# Paths are debounced on their own

All paths share one map of deadlines, come due in one batch, and go out on one stream.  Still nothing
that happens to one path is seen on another.  Two workers show it: the first is given everything, and
the second only the looks at the clock, the end of the input, and the events of one path.  The second
does what the first does with that path, in the same steps and in the same spelling
(`path_debounced_alone`).

The invariant is `Follows`: the second worker has nothing but that path, and of it what the first one
has.  A step of both keeps it, and so does a step that the first makes with another path; what a step
does to a path depends on what is pending for this path only (`filter_completes_congr`,
`stored?_leaves_congr`).
-/

namespace FileWatch

namespace Worker

/-- Whether an input has to do with a path.  The clock and the end of the input have to do with all. -/
def Input.concerns (p : Path) : Input → Bool
  | .event _ e => e.path == p
  | _ => true

/-- A step, as somebody sees it who looks at one path. -/
def Step.about (p : Path) (s : Step) : Step := { s with sent := s.sent.filter (·.path == p) }

variable {w v : Worker} {d d' : Pending} {p q : Path} {i : Input}

/-! ## What a step does to one path -/

theorem filter_completes_congr (h : d.stored? p = d'.stored? p) (i : Input) :
    (i.completes d).filter (· == p) = (i.completes d').filter (· == p) := by
  cases i with
  | check now =>
    show (d.takeExpired now).1.filter _ = (d'.takeExpired now).1.filter _
    rw [Pending.filter_takeExpired, Pending.filter_takeExpired, h]
  | ended =>
    show d.drain.1.filter _ = d'.drain.1.filter _
    rw [Pending.filter_drain, Pending.filter_drain, h]
  | event now e =>
    cases hsame : e.path == p with
    | false =>
      simp only [Input.completes]
      split <;> split <;> simp [hsame]
    | true =>
      have hopen : (d.cancel e.path).1 = (d'.cancel e.path).1 := by
        rw [Pending.cancel_fst_eq, Pending.cancel_fst_eq, Dict.stored?_congr hsame, h,
          Dict.stored?_congr hsame]
      simp only [Input.completes, hopen]

theorem filter_completes_of_unconcerned (h : i.concerns p = false) (d : Pending) :
    (i.completes d).filter (· == p) = [] := by
  cases i with
  | check now => cases h
  | ended => cases h
  | event now e =>
    have hother : (e.path == p) = false := h
    simp only [Input.completes]
    split <;> simp [hother]

theorem completes_empty (i : Input) : i.completes .empty = [] := by
  cases i with
  | check now => exact List.map_eq_nil_iff.mpr List.mergeSort_nil
  | ended => exact List.map_eq_nil_iff.mpr List.mergeSort_nil
  | event now e =>
    have hclosed : (Pending.cancel .empty e.path).1 = false := rfl
    simp only [Input.completes, hclosed, Bool.and_false, Bool.false_eq_true, if_false]

/-- Only what is pending is completed. -/
theorem stored?_ne_none_of_completes (h : q ∈ i.completes d) : d.stored? q ≠ none := by
  intro hnone
  have hfilter : q ∈ (i.completes d).filter (· == q) := List.mem_filter.mpr ⟨h, BEq.rfl⟩
  rw [filter_completes_congr (hnone.trans (Dict.stored?_empty q).symm), completes_empty] at hfilter
  cases hfilter

theorem filter_forwarded_of_concerns (h : i.concerns p = true) :
    i.forwarded.filter (·.path == p) = i.forwarded := by
  cases i with
  | check now => rfl
  | ended => rfl
  | event now e =>
    have hsame : (e.path == p) = true := h
    simp only [Input.forwarded]
    split
    · split <;> simp [hsame]
    · simp [hsame]

theorem filter_forwarded_of_unconcerned (h : i.concerns p = false) :
    i.forwarded.filter (·.path == p) = [] := by
  cases i with
  | check now => cases h
  | ended => cases h
  | event now e =>
    have hother : (e.path == p) = false := h
    simp only [Input.forwarded]
    split
    · split <;> simp [hother]
    · simp [hother]

theorem stored?_leaves_congr (h : d.stored? p = d'.stored? p) (quiet : Duration) (i : Input) :
    (i.leaves quiet d).stored? p = (i.leaves quiet d').stored? p := by
  cases i with
  | check now =>
    show (d.takeExpired now).2.stored? p = (d'.takeExpired now).2.stored? p
    rw [Pending.stored?_takeExpired, Pending.stored?_takeExpired, h]
  | ended => rfl
  | event now e => rw [stored?_leaves_event, stored?_leaves_event, h]

theorem stored?_leaves_of_unconcerned (h : i.concerns p = false) (quiet : Duration) (d : Pending) :
    (i.leaves quiet d).stored? p = d.stored? p := by
  cases i with
  | check now => cases h
  | ended => cases h
  | event now e =>
    rw [stored?_leaves_event, show (e.path == p) = false from h]
    rfl

/-! ## Two workers side by side -/

/-- The second worker has nothing but a path, and of it what the first one has. -/
structure Follows (p : Path) (w v : Worker) : Prop where
  live : w.output.listening = true
  follows : v.output.listening = true
  quiet : v.quiet = w.quiet
  same : v.pending.stored? p = w.pending.stored? p
  only : ∀ q, (q == p) = false → v.pending.stored? q = none

namespace Follows

theorem completes_eq (follows : Follows p w v) (i : Input) :
    (i.completes w.pending).filter (· == p) = i.completes v.pending := by
  rw [filter_completes_congr follows.same.symm, List.filter_eq_self]
  intro q hq
  apply Classical.byContradiction
  intro hother
  exact stored?_ne_none_of_completes hq (follows.only q (by simpa using hother))

/-- A step of both with an input that has to do with the path. -/
theorem about_stepAt (follows : Follows p w v) (h : i.concerns p = true) :
    (w.stepAt i).about p = v.stepAt i := by
  have hpath : (fun e : Event => e.path == p) ∘ Event.completionOf = (· == p) := rfl
  unfold Step.about stepAt
  simp only
  rw [List.filter_append, List.filter_map, hpath, follows.completes_eq,
    filter_forwarded_of_concerns h]

theorem next (follows : Follows p w v) (h : i.concerns p = true) :
    Follows p (w.next i) (v.next i) where
  live := next_live follows.live i
  follows := next_live follows.follows i
  quiet := by rw [next_quiet follows.live, next_quiet follows.follows, follows.quiet]
  same := by
    rw [next_eq follows.live, next_eq follows.follows]
    show (i.leaves v.quiet v.pending).stored? p = (i.leaves w.quiet w.pending).stored? p
    rw [follows.quiet, stored?_leaves_congr follows.same]
  only := by
    intro q hq
    rw [next_eq follows.follows]
    show (i.leaves v.quiet v.pending).stored? q = none
    have hnone := follows.only q hq
    cases i with
    | check now =>
      show (v.pending.takeExpired now).2.stored? q = none
      rw [Pending.stored?_takeExpired, hnone, Option.filter_none]
    | ended => exact Pending.stored?_drain _ q
    | event now e =>
      -- The event is one of the path, and so of no other.
      have hother : (Input.event now e).concerns q = false := by
        rw [Bool.eq_false_iff]
        intro hsame
        have : (q == p) = true := BEq.trans (BEq.symm hsame) h
        rw [hq] at this
        cases this
      rw [stored?_leaves_of_unconcerned hother, hnone]

/-- A step that the first worker makes with another path. -/
theorem skip (follows : Follows p w v) (h : i.concerns p = false) : Follows p (w.next i) v where
  live := next_live follows.live i
  follows := follows.follows
  quiet := by rw [next_quiet follows.live, follows.quiet]
  same := by
    rw [next_eq follows.live]
    show v.pending.stored? p = (i.leaves w.quiet w.pending).stored? p
    rw [stored?_leaves_of_unconcerned h, follows.same]
  only := follows.only

end Follows

theorem about_stepAt_of_unconcerned (w : Worker) (h : i.concerns p = false) :
    ((w.stepAt i).about p).sent = [] := by
  have hpath : (fun e : Event => e.path == p) ∘ Event.completionOf = (· == p) := rfl
  unfold Step.about stepAt
  simp only
  rw [List.filter_append, List.filter_map, hpath, filter_completes_of_unconcerned h,
    filter_forwarded_of_unconcerned h]
  rfl

/-- The run lemma: what the first worker does with the path is what the second one does. -/
theorem Follows.history (follows : Follows p w v) (is : List Input) :
    ((w.history is).filter (·.input.concerns p)).map (Step.about p)
        = v.history (is.filter (Input.concerns p)) ∧
      ∀ s ∈ w.history is, s.input.concerns p = false → (s.about p).sent = [] := by
  induction is generalizing w v with
  | nil => exact ⟨rfl, nofun⟩
  | cons i rest ih =>
    rw [history_cons follows.live]
    cases hconcerns : i.concerns p with
    | true =>
      obtain ⟨hsteps, hothers⟩ := ih (follows.next hconcerns)
      rw [List.filter_cons_of_pos (by exact hconcerns), List.map_cons, hsteps,
        List.filter_cons_of_pos hconcerns, history_cons follows.follows,
        follows.about_stepAt hconcerns]
      refine ⟨rfl, fun s hs hother => ?_⟩
      rcases List.mem_cons.mp hs with rfl | hs
      · rw [show (w.stepAt i).input = i from rfl, hconcerns] at hother
        cases hother
      · exact hothers s hs hother
    | false =>
      have hnot : ¬ i.concerns p = true := by simp [hconcerns]
      obtain ⟨hsteps, hothers⟩ := ih (follows.skip hconcerns)
      rw [List.filter_cons_of_neg (by exact hnot), hsteps, List.filter_cons_of_neg hnot]
      refine ⟨rfl, fun s hs hother => ?_⟩
      rcases List.mem_cons.mp hs with rfl | hs
      · exact about_stepAt_of_unconcerned w hconcerns
      · exact hothers s hs hother

/-- What is sent of a path is what the steps send of it that have to do with it. -/
theorem filter_sent {h : List Step}
    (others : ∀ s ∈ h, s.input.concerns p = false → (s.about p).sent = []) :
    (h.flatMap (·.sent)).filter (·.path == p)
      = ((h.filter (·.input.concerns p)).map (Step.about p)).flatMap (·.sent) := by
  induction h with
  | nil => rfl
  | cons s rest ih =>
    have hrest := ih fun t ht => others t (List.mem_cons_of_mem s ht)
    rw [List.flatMap_cons, List.filter_append, hrest]
    cases hconcerns : s.input.concerns p with
    | true =>
      rw [List.filter_cons_of_pos (by exact hconcerns), List.map_cons, List.flatMap_cons]
      rfl
    | false =>
      have hsilent : s.sent.filter (·.path == p) = [] := others s List.mem_cons_self hconcerns
      rw [List.filter_cons_of_neg (by simp [hconcerns]), hsilent, List.nil_append]

/-! ## A receiver that goes away -/

/-- A worker that nobody listens to any more. -/
def abandoned (w : Worker) : Worker := { w with output := w.output.abandoned }

/-- The steps of a worker whose receiver goes away between two inputs. -/
def historyTill (w : Worker) (heard unheard : List Input) : List Step :=
  w.history heard ++ (w.serveAll heard).abandoned.history unheard

theorem send_unheard (h : w.output.listening = false) (e : Event) : w.send e = (false, w) := by
  unfold send Outlet.send
  simp [h]

theorem output_complete_unheard (h : w.output.listening = false) (ps : List Path) :
    (w.complete ps).2.output = w.output := by
  cases ps with
  | nil => rfl
  | cons p rest =>
    unfold complete
    rw [send_unheard h]
    rfl

theorem output_serve_unheard (h : w.output.listening = false) (i : Input) :
    (w.serve i).2.output = w.output := by
  cases i with
  | check now =>
    exact output_complete_unheard (w := { w with pending := (w.pending.takeExpired now).2 }) h _
  | ended => exact output_complete_unheard (w := { w with pending := w.pending.drain.2 }) h _
  | event now e =>
    have hsend : ∀ (d : Pending) (f : Event),
        { w with pending := d }.send f = (false, { w with pending := d }) :=
      fun d f => send_unheard (w := { w with pending := d }) h f
    simp only [serve, handle, hsend]
    split
    · rfl
    · split
      · split <;> rfl
      · split
        · rfl
        · split <;> rfl

/-- Nothing is sent to nobody. -/
theorem sent_history_unheard (h : w.output.listening = false) (is : List Input) :
    (w.history is).flatMap (·.sent) = [] := by
  induction is generalizing w with
  | nil => rfl
  | cons i rest ih =>
    have hout := output_serve_unheard h i
    rw [history, List.flatMap_cons, hout]
    simp only [List.drop_length, List.nil_append]
    split
    · exact ih (by rw [hout, h])
    · rfl

theorem follows_fresh (quiet : Duration) (p : Path) : Follows p (fresh quiet) (fresh quiet) :=
  ⟨rfl, rfl, rfl, rfl, fun q _ => Dict.stored?_empty q⟩

/-- **A path is debounced alone.**  Take any window and any mixture of looks at the clock, of events
and of ends of the input, and keep of the events those of one path.  Then every step that is left sends
what it has sent of this path before, and the other steps have sent nothing of it.  So what is seen of
the path on the stream is the same, also when the receiver goes away. -/
theorem path_debounced_alone (quiet : Duration) (p : Path) (inputs unheard : List Input) :
    (((fresh quiet).history inputs).filter (·.input.concerns p)).map (Step.about p)
        = (fresh quiet).history (inputs.filter (Input.concerns p)) ∧
      (∀ s ∈ (fresh quiet).history inputs, s.input.concerns p = false → (s.about p).sent = []) ∧
      (((fresh quiet).historyTill inputs unheard).flatMap (·.sent)).filter (·.path == p)
        = ((fresh quiet).historyTill (inputs.filter (Input.concerns p))
            (unheard.filter (Input.concerns p))).flatMap (·.sent) := by
  have hfollows := follows_fresh quiet p
  obtain ⟨hsteps, hothers⟩ := hfollows.history inputs
  refine ⟨hsteps, hothers, ?_⟩
  have hnothing : ∀ w : Worker, ∀ is, (w.abandoned.history is).flatMap (·.sent) = [] :=
    fun _ is => sent_history_unheard rfl is
  unfold historyTill
  rw [List.flatMap_append, List.flatMap_append, hnothing, hnothing, List.append_nil, List.append_nil,
    filter_sent hothers, hsteps]

/-- Two files are written at once, and one of them is named in two ways. -/
def mingled : List Input :=
  [.event 0 ⟨⟨[0x61, slash]⟩, .write⟩, .event 0 ⟨⟨[0x62]⟩, .write⟩, .event 60 ⟨⟨[0x61]⟩, .write⟩,
    .event 70 ⟨⟨[0x62]⟩, .remove⟩, .check 160, .ended]

/-- The other file goes away. -/
def unmingled : Step :=
  ⟨.event 70 ⟨⟨[0x62]⟩, .remove⟩, [.completionOf ⟨[0x62]⟩, ⟨⟨[0x62]⟩, .remove⟩]⟩

/-- The first file keeps its window and its first spelling, and nothing of it goes out when the other
one goes away. -/
theorem path_debounced_alone_mingled : unmingled ∈ (fresh ⟨100⟩).history mingled ∧
    unmingled.input.concerns ⟨[0x61]⟩ = false ∧ (unmingled.about ⟨[0x61]⟩).sent = [] ∧
    ((fresh ⟨100⟩).history (mingled.filter (Input.concerns ⟨[0x61]⟩))).map (·.sent)
      = [[], [], [.completionOf ⟨[0x61, slash]⟩], []] := by
  have hplace : ((fresh ⟨100⟩).history mingled)[3]? = some unmingled := by cbv
  have hmem := List.mem_of_getElem? hplace
  have hother : unmingled.input.concerns ⟨[0x61]⟩ = false := by cbv
  exact ⟨hmem, hother, (path_debounced_alone ⟨100⟩ ⟨[0x61]⟩ mingled []).2.1 _ hmem hother, by cbv⟩

end Worker

end FileWatch
