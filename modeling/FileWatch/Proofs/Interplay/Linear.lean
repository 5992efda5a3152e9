import Mathlib
import FileWatch.Proofs.Interplay.Tally

/-!
# Calls that come at once have an order

A watcher that nobody uses at the moment (`Ready`) is used by any number of callers who register paths and
remove them.  When all of them are done, they have got what they get in some order, one after the other
(`Linearizes`), with two exceptions.

Neither exception can be left out.  Two callers who remove a path at the same time may both succeed, which
they never do in turn; and what a path was registered for may outlive its removal.
-/

namespace FileWatch

namespace Interplay

variable {s₀ s t : Interplay} {m : Move} {past : List (Interplay × Move)} {order : List Nat}
  {p : Path} {u : Watch} {find : Bool → Path → Except Errno Inode} {names : Path → Option Inode}

/-! ## A whole run -/

/-- No call is under way, nothing waits to be read, and every path that has a watch names the watched
thing. -/
structure Ready (names : Path → Option Inode) (s : Interplay) : Prop where
  reachable : Reachable s
  calm : s.Calm s.watcher.kernel.tree.find
  paid : s.watcher.reader.drops = []
  returned : s.allReturned = true
  drained : s.pending = []
  named : ∀ {p : Path} {u : Watch}, s.table.entry? p = some u →
    ∃ inode, names p = some inode ∧ s.notifier.Watches u.handle inode

theorem foreseen_of_allReturned (returned : s.allReturned = true) : s.foreseen = s.table := by
  refine foreseen_of_none fun c hc => ?_
  have hreturned := List.all_eq_true.mp returned c hc
  unfold Call.hasReturned at hreturned
  split at hreturned <;> first | rfl | cases hreturned

namespace Ready

theorem alive? (ready : s.Ready names) (p : Path) : s.alive? p = s.table.entry? p := by
  refine Option.ext fun u => ?_
  rw [alive?_eq_some_iff, foreseen_of_allReturned ready.returned]
  refine ⟨And.left, fun hu => ⟨hu, ?_⟩⟩
  obtain ⟨inode, -, hwatches⟩ := ready.named hu
  exact hwatches.isLive

theorem busy (ready : s.Ready names) : s.Busy find names := by
  intro c hc hopen
  rw [List.all_eq_true.mp ready.returned c hc] at hopen
  cases hopen

theorem contested (ready : s.Ready names) : s.Contested names := by
  have hopen : ∀ {i : Nat} {c : Call}, s.calls[i]? = some c → c.hasReturned = false → False := by
    intro i c hc hopen
    rw [List.all_eq_true.mp ready.returned c (List.mem_of_getElem? hc)] at hopen
    cases hopen
  refine ⟨fun {p u} hu => ?_, fun hfound => (hopen hfound rfl).elim, fun {p u} hentry dead => ?_⟩
  · rw [ready.alive?] at hu
    exact ready.named hu
  · rw [foreseen_of_allReturned ready.returned] at hentry
    obtain ⟨inode, -, hwatches⟩ := ready.named hentry
    rw [hwatches.isLive] at dead
    cases dead

theorem tallies (ready : s.Ready names) :
    Tallies s.watcher.kernel.tree.find s [] s [] where
  serial := ⟨.nil, nofun, .nil, nofun⟩
  complete := by
    intro i
    refine iff_of_false nofun ?_
    rintro ⟨hi, c, hc, -⟩
    exact absurd (List.getElem?_eq_some_iff.mp hc).1 (Nat.not_lt.mpr hi)
  mirrors := by
    have hqueue : s.notifier.queue = [] := (List.append_eq_nil_iff.mp ready.drained).2
    refine ⟨⟨ready.calm.atWork, ready.paid, ready.calm.phase, hqueue, ready.calm.limit, rfl,
      ready.reachable.ordered.paired⟩, rfl, fun p => ?_⟩
    rw [ready.alive?]
    show Option.Rel _ (s.table.entry? p) (s.table.entry? p)
    cases s.table.entry? p with
    | none => exact .none
    | some u => exact .some (.refl u)

/-- **Moves of contending callers keep the calls in an order.** -/
theorem through (ready : s₀.Ready names) (distinct : Distinct names)
    (through : Through (Contending names) s₀ past s) :
    s.Calm s₀.watcher.kernel.tree.find ∧ s.Busy s₀.watcher.kernel.tree.find names ∧
      s.Contested names ∧ ∃ order, Tallies s₀.watcher.kernel.tree.find s₀ past s order := by
  induction through with
  | refl => exact ⟨ready.calm, ready.busy, ready.contested, [], ready.tallies⟩
  | @step past s t m before allowed fired ih =>
    obtain ⟨calm, busy, contested, order, tallies⟩ := ih
    have hs : Reachable s := ready.reachable.leads before.leads
    have ht : Reachable t := ready.reachable.leads (Through.step before allowed fired).leads
    refine ⟨calm.of_fire hs allowed.tame fired, busy.of_fire hs calm allowed fired, ?_⟩
    cases stride_of_fire hs calm busy allowed fired with
    | aside aside => exact ⟨contested.aside aside, _, tallies.aside aside⟩
    | asks i p o wanted known mover stage after =>
      subst mover
      have hapt : s.Dying p.normalize →
          Holdings.verdict s.watcher.kernel.tree.find p.normalize (armed wanted known) none
            = Holdings.verdict s.watcher.kernel.tree.find p.normalize o.flags none := by
        cases allowed with
        | call apt => exact apt stage
      obtain ⟨contested', tallies'⟩ := tallies.asks ready.reachable ready.returned before hs ht calm
        busy distinct contested hapt stage after
      exact ⟨contested', _, tallies'⟩
    | looks i p free stage after =>
      subst after
      exact ⟨contested.looks free stage rfl,
        tallies.looks ready.reachable ready.returned before contested free stage rfl⟩
    | drops i p h stage after =>
      refine ⟨contested.drops stage after hs, ?_⟩
      cases hlive : s.notifier.isLive h with
      | true =>
        exact tallies.drops_live stage after ready.reachable ready.returned before hs contested hlive
      | false => exact ⟨_, tallies.drops_dead stage after hlive⟩

end Ready

/-- When all calls have returned, all of them have their place. -/
theorem Complete.perm (complete : Complete s₀ s order) (nodup : order.Nodup)
    (returned : s.allReturned = true) :
    order.Perm (List.range' s₀.calls.length (s.calls.length - s₀.calls.length)) := by
  refine (List.perm_ext_iff_of_nodup nodup (List.nodup_range' ..)).mpr fun i => ?_
  rw [complete, List.mem_range'_1]
  constructor
  · rintro ⟨hi, c, hc, -⟩
    have hlt := (List.getElem?_eq_some_iff.mp hc).1
    omega
  · rintro ⟨hi, hlt⟩
    have hc : s.calls[i]? = some s.calls[i] := List.getElem?_eq_getElem (by omega)
    have hreturned := List.all_eq_true.mp returned _ (List.mem_of_getElem? hc)
    obtain ⟨outcome, -, hdecided⟩ := Call.standing_of_hasReturned hreturned
    exact ⟨hi, .of_decided hc hdecided⟩

/-- One path has a name. -/
def dotted (p : Path) : Option Inode := if p == ⟨[dot]⟩ then some Tree.here else none

/-- A call makes some steps. -/
def goes (i n : Nat) : List Move := List.replicate n (.call i)

end Interplay

end FileWatch
