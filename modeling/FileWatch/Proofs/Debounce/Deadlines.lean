import Mathlib
import FileWatch.Proofs.Debounce.Independence
import FileWatch.Proofs.Path.Order

/-!
# Deadlines that come due

A worker looks at the clock when it happens to be awake.  Which deadlines it then finds passed depends on
that, but what it does with them does not: it takes them in one order, and to take some of them now and the
others later is to take them all at once.

The order is settled by the deadlines and the paths alone, because no two paths of a map say the same, and so
it does not depend on how the map is kept (`eq_ordered`).  Whatever is split by an instant, each
half can be put in order on its own (`ordered_split`).  All that is said of looking at the clock comes
from these two.

Over a whole run it remains to see that nothing comes to be pending with a deadline that has been passed
already.  The clock is not set back, so all that is still to be taken is no earlier than any instant
the worker has left behind (`le_of_mem_fired`).
-/

namespace FileWatch

namespace Pending

variable {es fs : List (Path × Instant)} {a b c : Path × Instant} {d d' : Pending} {t u : Instant}

/-! ## The order -/

/-- To come due before another one: at an earlier instant, or at the same one with an earlier path. -/
def Before (a b : Path × Instant) : Prop := a.2 < b.2 ∨ a.2 = b.2 ∧ b.1.le a.1 = false

/-- Some deadlines in the order in which they come due. -/
def ordered (es : List (Path × Instant)) : List (Path × Instant) := es.mergeSort le

/-- The deadlines that are not after an instant, in that order. -/
def due (d : Pending) (t : Instant) : List (Path × Instant) :=
  ordered (d.entries.filter fun e => e.2 ≤ t)

theorem le_iff : le a b = true ↔ a.2 < b.2 ∨ a.2 = b.2 ∧ a.1.le b.1 = true := by
  simp [le]

theorem le_total (a b : Path × Instant) : (le a b || le b a) = true := by
  rw [Bool.or_eq_true, le_iff, le_iff]
  rcases Nat.lt_trichotomy a.2 b.2 with hlt | heq | hgt
  · exact .inl (.inl hlt)
  · rcases Path.le_total a.1 b.1 with hab | hba
    · exact .inl (.inr ⟨heq, hab⟩)
    · exact .inr (.inr ⟨heq.symm, hba⟩)
  · exact .inr (.inl hgt)

theorem le_trans (hab : le a b = true) (hbc : le b c = true) : le a c = true := by
  rw [le_iff] at *
  rcases hab with hab | ⟨hab, hpaths⟩ <;> rcases hbc with hbc | ⟨hbc, hpaths'⟩
  · exact .inl (Nat.lt_trans hab hbc)
  · exact .inl (hbc ▸ hab)
  · exact .inl (hab ▸ hbc)
  · exact .inr ⟨hab.trans hbc, Path.le_trans hpaths hpaths'⟩

theorem beq_of_le_of_le (hab : le a b = true) (hba : le b a = true) : (a.1 == b.1) = true := by
  rw [le_iff] at *
  rcases hab with hab | ⟨hab, hpaths⟩ <;> rcases hba with hba | ⟨hba, hpaths'⟩
  · exact absurd hba (Nat.lt_asymm hab)
  · exact absurd hba (Nat.ne_of_gt hab)
  · exact absurd hab (Nat.ne_of_gt hba)
  · exact Path.beq_of_le_of_le hpaths hpaths'

theorem pairwise_ordered (es : List (Path × Instant)) : (ordered es).Pairwise fun a b => le a b = true := by
  apply List.pairwise_mergeSort
  · intro a b c
    exact le_trans
  · exact le_total

theorem ordered_perm (es : List (Path × Instant)) : (ordered es).Perm es := List.mergeSort_perm es le

theorem mem_ordered : a ∈ ordered es ↔ a ∈ es := (ordered_perm es).mem_iff

/-- **Deadlines of different paths have one order.** -/
theorem eq_ordered (distinct : es.Pairwise fun a b => (a.1 == b.1) = false) (perm : fs.Perm es)
    (sorted : fs.Pairwise fun a b => le a b = true) : fs = ordered es := by
  refine List.Perm.eq_of_pairwise ?_ sorted (pairwise_ordered es) (perm.trans (ordered_perm es).symm)
  intro a b ha hb hab hba
  exact Dict.eq_of_mem_of_beq (d := ⟨es, distinct⟩) (perm.mem_iff.mp ha) (mem_ordered.mp hb)
    (beq_of_le_of_le hab hba)

theorem pairwise_before_ordered (distinct : es.Pairwise fun a b => (a.1 == b.1) = false) :
    (ordered es).Pairwise Before := by
  have hdistinct : (ordered es).Pairwise fun a b => (a.1 == b.1) = false := by
    refine distinct.perm (ordered_perm es).symm ?_
    intro a b hab
    rw [BEq.comm]
    exact hab
  refine ((pairwise_ordered es).and hdistinct).imp ?_
  rintro a b ⟨hle, hne⟩
  rcases le_iff.mp hle with hlt | ⟨heq, hab⟩
  · exact .inl hlt
  · refine .inr ⟨heq, Bool.eq_false_iff.mpr ?_⟩
    intro hba
    rw [Path.beq_of_le_of_le hab hba] at hne
    cases hne

/-- What is due up to an instant comes first, in its own order. -/
theorem ordered_split (distinct : es.Pairwise fun a b => (a.1 == b.1) = false) (t : Instant) :
    ordered (es.filter fun e => e.2 ≤ t) ++ ordered (es.filter fun e => !(e.2 ≤ t)) = ordered es := by
  apply eq_ordered distinct
  · have hhalves := (ordered_perm (es.filter fun e => e.2 ≤ t)).append
      (ordered_perm (es.filter fun e => !(e.2 ≤ t)))
    exact hhalves.trans (List.filter_append_perm _ es)
  · refine List.pairwise_append.mpr ⟨pairwise_ordered _, pairwise_ordered _, ?_⟩
    intro a ha b hb
    have hearly : a.2 ≤ t := by simpa using (List.mem_filter.mp (mem_ordered.mp ha)).2
    have hlate : t < b.2 := by simpa using (List.mem_filter.mp (mem_ordered.mp hb)).2
    exact le_iff.mpr (.inl (Nat.lt_of_le_of_lt hearly hlate))

/-! ## Looking at the clock -/

theorem takeExpired_fst (d : Pending) (t : Instant) : (d.takeExpired t).1 = (d.due t).map (·.1) := rfl

theorem entries_takeExpired (d : Pending) (t : Instant) :
    (d.takeExpired t).2.entries = d.entries.filter fun e => !(e.2 ≤ t) := rfl

theorem drain_fst (d : Pending) : d.drain.1 = (ordered d.entries).map (·.1) := rfl

theorem mem_due : a ∈ d.due t ↔ a ∈ d.entries ∧ a.2 ≤ t := by
  unfold due
  rw [mem_ordered, List.mem_filter, decide_eq_true_eq]

theorem mem_takeExpired : a ∈ (d.takeExpired t).2.entries ↔ a ∈ d.entries ∧ t < a.2 := by
  rw [entries_takeExpired, List.mem_filter]
  simp

theorem due_perm (d : Pending) (t : Instant) : (d.due t).Perm (d.entries.filter fun e => e.2 ≤ t) :=
  ordered_perm _

theorem pairwise_before_due (d : Pending) (t : Instant) : (d.due t).Pairwise Before :=
  pairwise_before_ordered (d.distinct.filter _)

theorem ordered_congr (same : d'.entries.Perm d.entries) : ordered d'.entries = ordered d.entries :=
  eq_ordered d.distinct ((ordered_perm _).trans same) (pairwise_ordered _)

theorem due_congr (same : d'.entries.Perm d.entries) (t : Instant) : d'.due t = d.due t :=
  eq_ordered (d.distinct.filter _) ((ordered_perm _).trans (same.filter _)) (pairwise_ordered _)

/-- What is due now and what is due later is what would have been due later. -/
theorem due_append_due (d : Pending) (h : t ≤ u) : d.due t ++ (d.takeExpired t).2.due u = d.due u := by
  have hearly : (d.entries.filter fun e => e.2 ≤ u).filter (fun e => e.2 ≤ t)
      = d.entries.filter fun e => e.2 ≤ t := by
    rw [List.filter_filter]
    refine List.filter_congr fun e _ => ?_
    rw [Bool.eq_iff_iff, Bool.and_eq_true, decide_eq_true_eq, decide_eq_true_eq]
    exact and_iff_left_of_imp fun he => Nat.le_trans he h
  have hlate : (d.entries.filter fun e => e.2 ≤ u).filter (fun e => !(e.2 ≤ t))
      = (d.takeExpired t).2.entries.filter fun e => e.2 ≤ u := by
    rw [entries_takeExpired, List.filter_filter, List.filter_filter]
    exact List.filter_congr fun e _ => Bool.and_comm _ _
  unfold due
  rw [← hearly, ← hlate, ordered_split (d.distinct.filter _)]

theorem takeExpired_takeExpired (d : Pending) (h : t ≤ u) :
    ((d.takeExpired t).2.takeExpired u).2 = (d.takeExpired u).2 := by
  apply Dict.ext_entries
  rw [entries_takeExpired, entries_takeExpired, entries_takeExpired, List.filter_filter]
  refine List.filter_congr fun e _ => ?_
  rw [Bool.eq_iff_iff, Bool.and_eq_true, Bool.not_eq_true', Bool.not_eq_true', decide_eq_false_iff_not,
    decide_eq_false_iff_not]
  exact and_iff_left_of_imp fun he htoo => he (Nat.le_trans htoo h)

theorem nextDeadline?_eq_some_iff {next : Instant} :
    d.nextDeadline? = some next ↔ (∃ p, (p, next) ∈ d.entries) ∧ ∀ e ∈ d.entries, next ≤ e.2 := by
  unfold nextDeadline? Dict.values
  rw [List.min?_eq_some_iff, List.mem_map, List.forall_mem_map]
  simp

theorem lt_of_nextDeadline?_takeExpired {next : Instant}
    (h : (d.takeExpired t).2.nextDeadline? = some next) : t < next := by
  obtain ⟨⟨p, hp⟩, -⟩ := nextDeadline?_eq_some_iff.mp h
  exact (mem_takeExpired.mp hp).2

theorem takeExpired_ne_nil {next : Instant} (h : d.nextDeadline? = some next) (passed : next ≤ t) :
    (d.takeExpired t).1 ≠ [] := by
  obtain ⟨⟨p, hp⟩, -⟩ := nextDeadline?_eq_some_iff.mp h
  rw [takeExpired_fst]
  exact List.ne_nil_of_mem (List.mem_map_of_mem (mem_due.mpr ⟨hp, passed⟩))

end Pending

namespace Worker

variable {w : Worker} {d : Pending} {i : Input} {is : List Input} {t : Instant} {e : Path × Instant}

/-! ## Over a whole run -/

/-- What the clock shows at an input. -/
def Input.clock? : Input → Option Instant
  | .check now => some now
  | .event now _ => some now
  | .ended => none

def Input.isEvent : Input → Bool
  | .event _ _ => true
  | _ => false

/-- The deadlines that are taken at an input, in the order in which that is done.  The end of the input
takes them all. -/
def Input.takes (d : Pending) : Input → List (Path × Instant)
  | .check now => d.due now
  | .event _ _ => []
  | .ended => Pending.ordered d.entries

/-- The deadlines that are taken in the course of a run. -/
def fired (w : Worker) : List Input → List (Path × Instant)
  | [] => []
  | i :: rest => i.takes w.pending ++ (w.next i).fired rest

/-- What is sent because of the clock and because of the end of the input. -/
def sentInTime (h : List Step) : List Event := (h.filter fun s => !s.input.isEvent).flatMap (·.sent)

/-- The clock is not set back, and nothing comes after the end of the input. -/
structure Timely (is : List Input) : Prop where
  forward : (is.filterMap Input.clock?).Pairwise (· ≤ ·)
  last : .ended ∉ is.dropLast

theorem Timely.tail (timely : Timely (i :: is)) : Timely is where
  forward := by
    have hforward := timely.forward
    rw [List.filterMap_cons] at hforward
    split at hforward
    · exact hforward
    · exact (List.pairwise_cons.mp hforward).2
  last := by
    intro hmem
    cases is with
    | nil => cases hmem
    | cons j rest => exact timely.last (List.mem_cons_of_mem i hmem)

theorem Timely.eq_nil_of_ended (timely : Timely (.ended :: is)) : is = [] := by
  cases is with
  | nil => rfl
  | cons j rest => exact absurd List.mem_cons_self timely.last

/-- What goes out in time goes out for the deadlines that are taken. -/
theorem sent_stepAt (w : Worker) (h : i.isEvent = false) :
    (w.stepAt i).sent = (i.takes w.pending).map fun e => .completionOf e.1 := by
  cases i with
  | event now e => cases h
  | check now =>
    rw [stepAt_of_forwarded_nil w rfl]
    exact List.map_map
  | ended =>
    rw [stepAt_of_forwarded_nil w rfl]
    exact List.map_map

theorem sentInTime_history (live : w.output.listening = true) (is : List Input) :
    sentInTime (w.history is) = (w.fired is).map fun e => .completionOf e.1 := by
  induction is generalizing w with
  | nil => rfl
  | cons i rest ih =>
    have hrest := ih (next_live live i)
    unfold sentInTime at hrest ⊢
    rw [history_cons live, fired, List.map_append, ← hrest]
    cases hevent : i.isEvent with
    | true =>
      have hnone : i.takes w.pending = [] := by
        cases i with
        | event now e => rfl
        | check now => cases hevent
        | ended => cases hevent
      rw [List.filter_cons_of_neg (by simp [stepAt, hevent]), hnone]
      rfl
    | false =>
      rw [List.filter_cons_of_pos (by simp [stepAt, hevent]), List.flatMap_cons, sent_stepAt w hevent]

theorem sentInTime_historyTill (live : w.output.listening = true) (heard unheard : List Input) :
    sentInTime (w.historyTill heard unheard) = (w.fired heard).map fun e => .completionOf e.1 := by
  have hnothing : sentInTime ((w.serveAll heard).abandoned.history unheard) = [] := by
    have hunheard := sent_history_unheard (w := (w.serveAll heard).abandoned) rfl unheard
    rw [List.flatMap_eq_nil_iff] at hunheard
    apply List.flatMap_eq_nil_iff.mpr
    intro s hs
    exact hunheard s (List.mem_filter.mp hs).1
  rw [← sentInTime_history live, ← List.append_nil (sentInTime (w.history heard)), ← hnothing]
  unfold sentInTime historyTill
  rw [List.filter_append, List.flatMap_append]

theorem mem_of_mem_takes (h : e ∈ i.takes d) : e ∈ d.entries := by
  cases i with
  | event now e => cases h
  | check now => exact (Pending.mem_due.mp h).1
  | ended => exact Pending.mem_ordered.mp h

/-- A deadline that is new is not one that has passed. -/
theorem mem_or_le_of_mem_leaves {quiet : Duration} (h : e ∈ (i.leaves quiet d).entries) :
    e ∈ d.entries ∨ ∃ now, i.clock? = some now ∧ now ≤ e.2 := by
  cases i with
  | check now => exact .inl (Pending.mem_takeExpired.mp h).1
  | ended => cases h
  | event now f =>
    simp only [Input.leaves] at h
    split at h
    · rw [Dict.mem_entries_iff, Pending.stored?_arm] at h
      split at h
      · have hnew : now + quiet.nanos = e.2 := congrArg Prod.snd (Option.some.inj h)
        exact .inr ⟨now, rfl, hnew ▸ Nat.le_add_right now quiet.nanos⟩
      · exact .inl (Dict.mem_entries_iff.mpr h)
    · split at h
      · exact .inl (List.mem_filter.mp h).1
      · exact .inl h

/-- What has been left behind is not taken any more. -/
theorem le_of_mem_fired (live : w.output.listening = true) (pending : ∀ e ∈ w.pending.entries, t ≤ e.2)
    (clock : ∀ now ∈ is.filterMap Input.clock?, t ≤ now) : ∀ e ∈ w.fired is, t ≤ e.2 := by
  induction is generalizing w with
  | nil => simp [fired]
  | cons i rest ih =>
    intro e he
    rcases List.mem_append.mp he with hnow | hlater
    · exact pending e (mem_of_mem_takes hnow)
    · refine ih (next_live live i) ?_ ?_ e hlater
      · intro f hf
        rw [next_eq live] at hf
        rcases mem_or_le_of_mem_leaves hf with hold | ⟨now, hnow, hle⟩
        · exact pending f hold
        · have hmem : now ∈ (i :: rest).filterMap Input.clock? :=
            List.mem_filterMap.mpr ⟨i, List.mem_cons_self, hnow⟩
          exact Nat.le_trans (clock now hmem) hle
      · intro now hnow
        obtain ⟨j, hj, hclock⟩ := List.mem_filterMap.mp hnow
        exact clock now (List.mem_filterMap.mpr ⟨j, List.mem_cons_of_mem i hj, hclock⟩)

theorem pairwise_takes (d : Pending) (i : Input) : (i.takes d).Pairwise (·.2 ≤ ·.2) := by
  have hordered : ∀ es : List (Path × Instant), (Pending.ordered es).Pairwise (·.2 ≤ ·.2) := by
    intro es
    refine (Pending.pairwise_ordered es).imp ?_
    intro a b hab
    rcases Pending.le_iff.mp hab with hlt | ⟨heq, -⟩
    · exact Nat.le_of_lt hlt
    · exact Nat.le_of_eq heq
  cases i with
  | event now e => exact .nil
  | check now => exact hordered _
  | ended => exact hordered _

/-- The run lemma: deadlines are taken as they come due. -/
theorem pairwise_fired (live : w.output.listening = true) (timely : Timely is) :
    (w.fired is).Pairwise (·.2 ≤ ·.2) := by
  induction is generalizing w with
  | nil => exact .nil
  | cons i rest ih =>
    refine List.pairwise_append.mpr ⟨pairwise_takes _ i, ih (next_live live i) timely.tail, ?_⟩
    intro a ha b hb
    cases i with
    | event now e => cases ha
    | ended =>
      rw [timely.eq_nil_of_ended] at hb
      cases hb
    | check now =>
      have hforward := timely.forward
      rw [List.filterMap_cons_some (show Input.clock? (.check now) = some now from rfl),
        List.pairwise_cons] at hforward
      refine Nat.le_trans (Pending.mem_due.mp ha).2
        (le_of_mem_fired (next_live live _) ?_ hforward.1 b hb)
      intro f hf
      rw [next_eq live] at hf
      exact Nat.le_of_lt (Pending.mem_takeExpired.mp hf).2

theorem fireExpired_eq (live : w.output.listening = true) (t : Instant) : w.fireExpired t =
    (true, w.after (w.pending.takeExpired t).2 ((w.pending.takeExpired t).1.map .completionOf)) := by
  have hserve := serve_eq live (.check t)
  rw [show (Input.check t).forwarded = [] from rfl, List.append_nil] at hserve
  exact hserve

/-- **Deadlines come due in their order, whenever somebody looks.**  What a look at the clock takes does not
depend on how the map is kept.  It is what is not after the instant, each once, in the order of
deadlines and then of paths; the rest stays, and the next deadline is after the instant.  Two looks take what
the second would have taken, and a look and then the end take what the end would have taken.  So a
worker that wakes up for a deadline sends something and has nothing more to do at once, and what goes out in
time goes out in the order of the deadlines, as long as the clock is not set back. -/
theorem deadlines_in_order (d : Pending) (t : Instant) (w : Worker) (heard unheard : List Input) :
    (∀ d' : Pending, d'.entries.Perm d.entries →
      d'.drain.1 = d.drain.1 ∧ (d'.takeExpired t).1 = (d.takeExpired t).1 ∧
        (d'.takeExpired t).2.entries.Perm (d.takeExpired t).2.entries) ∧
    (∀ u, t ≤ u →
      (d.takeExpired t).1 ++ ((d.takeExpired t).2.takeExpired u).1 = (d.takeExpired u).1 ∧
        ((d.takeExpired t).2.takeExpired u).2 = (d.takeExpired u).2) ∧
    ((d.takeExpired t).1 = (d.due t).map (·.1) ∧ (d.due t).Perm (d.entries.filter fun e => e.2 ≤ t) ∧
      (d.due t).Pairwise Pending.Before ∧
      (d.takeExpired t).2.entries = (d.entries.filter fun e => !(e.2 ≤ t)) ∧
      ∀ next, (d.takeExpired t).2.nextDeadline? = some next → t < next) ∧
    (d.takeExpired t).1 ++ (d.takeExpired t).2.drain.1 = d.drain.1 ∧
    (w.output.listening = true →
      (∀ next, w.pending.nextDeadline? = some next → next ≤ t →
        ∃ e sent, (w.fireExpired t).2.output.sent = w.output.sent ++ e :: sent) ∧
      (∀ next, (w.fireExpired t).2.pending.nextDeadline? = some next → t < next) ∧
      (Timely heard →
        sentInTime (w.historyTill heard unheard)
            = (w.fired heard).map (fun e => Event.completionOf e.1) ∧
          (w.fired heard).Pairwise (·.2 ≤ ·.2))) := by
  refine ⟨?_, ?_, ?_, ?_, ?_⟩
  · intro d' same
    rw [Pending.drain_fst, Pending.drain_fst, Pending.takeExpired_fst, Pending.takeExpired_fst,
      Pending.ordered_congr same, Pending.due_congr same]
    exact ⟨rfl, rfl, same.filter _⟩
  · intro u h
    rw [Pending.takeExpired_fst, Pending.takeExpired_fst, Pending.takeExpired_fst, ← List.map_append,
      Pending.due_append_due d h]
    exact ⟨rfl, Pending.takeExpired_takeExpired d h⟩
  · exact ⟨rfl, d.due_perm t, d.pairwise_before_due t, rfl,
      fun _ => Pending.lt_of_nextDeadline?_takeExpired⟩
  · rw [Pending.takeExpired_fst, Pending.drain_fst, Pending.drain_fst, ← List.map_append]
    exact congrArg _ (Pending.ordered_split d.distinct t)
  · intro live
    rw [fireExpired_eq live]
    refine ⟨?_, ?_, ?_⟩
    · intro next hnext passed
      obtain ⟨p, rest, hdue⟩ := List.exists_cons_of_ne_nil (Pending.takeExpired_ne_nil hnext passed)
      refine ⟨.completionOf p, rest.map .completionOf, ?_⟩
      rw [hdue]
      rfl
    · intro next
      exact Pending.lt_of_nextDeadline?_takeExpired
    · intro timely
      exact ⟨sentInTime_historyTill live heard unheard, pairwise_fired live timely⟩

/-- Three files are being written to, and two of them are to come due at once. -/
def threeBursts : Pending :=
  ((Dict.empty.insert ⟨[0x62]⟩ 100).insert ⟨[0x61]⟩ 100).insert ⟨[0x63]⟩ 50

/-- The same bursts, as they would be kept had the files come in the other way round. -/
def turnedBursts : Pending :=
  ((Dict.empty.insert ⟨[0x63]⟩ 50).insert ⟨[0x61]⟩ 100).insert ⟨[0x62]⟩ 100

def threeWriters : Worker := { fresh ⟨100⟩ with pending := threeBursts }

/-- The clock is looked at between the deadlines, and one file is written to once more. -/
def lateLooks : List Input := [.check 60, .event 70 ⟨⟨[0x61]⟩, .write⟩, .check 120, .check 130, .ended]

/-- The first look takes one file, the second one takes the one that was left alone, and the end takes
the last one. -/
theorem deadlines_in_order_threeBursts :
    turnedBursts.entries.Perm threeBursts.entries ∧
    (turnedBursts.takeExpired 60).1 = (threeBursts.takeExpired 60).1 ∧
    60 ≤ 120 ∧ (threeBursts.takeExpired 60).1 ++ ((threeBursts.takeExpired 60).2.takeExpired 120).1
      = [⟨[0x63]⟩, ⟨[0x61]⟩, ⟨[0x62]⟩] ∧
    (threeBursts.takeExpired 60).2.nextDeadline? = some 100 ∧ 60 < 100 ∧
    threeWriters.output.listening = true ∧ threeWriters.pending.nextDeadline? = some 50 ∧
    (∃ e sent, (threeWriters.fireExpired 60).2.output.sent = threeWriters.output.sent ++ e :: sent) ∧
    Timely lateLooks ∧
    threeWriters.fired lateLooks = [(⟨[0x63]⟩, 50), (⟨[0x62]⟩, 100), (⟨[0x61]⟩, 170)] ∧
    (threeWriters.fired lateLooks).Pairwise (·.2 ≤ ·.2) := by
  have hsame : turnedBursts.entries.Perm threeBursts.entries := by decide
  have hnext : (threeBursts.takeExpired 60).2.nextDeadline? = some 100 := by cbv
  have hfirst : threeWriters.pending.nextDeadline? = some 50 := by cbv
  have htimely : Timely lateLooks := ⟨by decide, by decide⟩
  obtain ⟨hperm, htwice, ⟨-, -, -, -, hafter⟩, -, hworker⟩ :=
    deadlines_in_order threeBursts 60 threeWriters lateLooks []
  obtain ⟨hwakes, -, hrun⟩ := hworker rfl
  refine ⟨hsame, (hperm _ hsame).2.1, by decide, ?_, hnext, hafter _ hnext, rfl, hfirst,
    hwakes _ hfirst (by decide), htimely, by cbv, (hrun htimely).2⟩
  rw [(htwice 120 (by decide)).1]
  cbv

end Worker

end FileWatch
