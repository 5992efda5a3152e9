import FileWatch.Proofs.WatchTable.Pairing
import FileWatch.WatchTable.Handshake
import Mathlib.Data.List.Induction

/-!
# Who wakes those that wait

A waiter that sleeps does not look at the table.  It counts on those who do something to the table: if
one of them ends what the waiter waits for, somebody has to wake it.  A waiter is `Stranded` if it
sleeps on although the handle no longer stands for the path.

A purge, a clearing and a waiter that runs out of time wake everybody, so none of them strands
anybody (`wakes_or_displaces`).  What is left are registrations.  They end what others wait for as a
side effect, when the path gets another handle or the handle another path (`Displaces`), and they wake
nobody.
-/

namespace FileWatch

namespace Handshake

/-! ## Turns -/

/-- What somebody does next. -/
inductive Turn where
  /-- A caller begins to wait. -/
  | enter (path : Path) (handle : Handle) (limited : Bool)
  /-- Somebody else does something to the table. -/
  | call (c : WatchTable.Call)
  /-- A waiter that is awake looks at the table. -/
  | look (i : Nat)
  /-- The time of a waiter is up. -/
  | expire (i : Nat)

def take (s : Handshake) : Turn → Handshake
  | .enter p h limited => s.enter (.fresh p h limited)
  | .call c => s.call c
  | .look i => s.look i
  | .expire i => s.expire i

def run (s : Handshake) (turns : List Turn) : Handshake := turns.foldl take s

/-- Whether a turn wakes those who sleep. -/
def wakes (s : Handshake) : Turn → Bool
  | .call c => c.wakes
  | .expire i => match s.waiters[i]? with
    | some w => w.limited && w.state = .asleep && s.table.owns w.path w.handle
    | none => false
  | _ => false

/-- Nobody is woken in some turns. -/
def Unheard (s : Handshake) : List Turn → Prop
  | [] => True
  | turn :: rest => s.wakes turn = false ∧ (s.take turn).Unheard rest

variable {s : Handshake} {w : Waiter} {i : Nat} {p : Path} {h : Handle} {turn : Turn}

theorem run_append (s : Handshake) (turns more : List Turn) :
    s.run (turns ++ more) = (s.run turns).run more := List.foldl_append

theorem run_concat (s : Handshake) (turns : List Turn) (turn : Turn) :
    s.run (turns ++ [turn]) = (s.run turns).take turn := s.run_append turns [turn]

theorem unheard_concat {turns : List Turn} (unheard : s.Unheard turns)
    (hlast : (s.run turns).wakes turn = false) : s.Unheard (turns ++ [turn]) := by
  induction turns generalizing s with
  | nil => exact ⟨hlast, trivial⟩
  | cons first rest ih => exact ⟨unheard.1, ih unheard.2 hlast⟩

/-! ## What a turn does -/

/-- What a turn does to the table, and to those who sleep. -/
inductive Does (s : Handshake) (turn : Turn) : Prop
  | removes (h : Handle) (table : (s.take turn).table = (s.table.removeHandle h).2)
      (wakes : s.wakes turn = true) (woken : ∀ w ∈ (s.take turn).waiters, w.state ≠ .asleep)
  | clears (table : (s.take turn).table = .empty)
      (wakes : s.wakes turn = true) (woken : ∀ w ∈ (s.take turn).waiters, w.state ≠ .asleep)
  | registers (p : Path) (flags : Mask) (h : Handle) (wanted : Mask)
      (registration : turn = .call (.register p flags (.ok h)))
      (after : s.take turn = { s with table := s.table.insert p ⟨h, wanted⟩ })
  /-- Whoever sleeps after it has slept before, or has just seen the pair; and whoever has slept before
  and has no limit sleeps on. -/
  | looks (table : (s.take turn).table = s.table) (silent : s.wakes turn = false)
      (sleepers : ∀ (i : Nat) (w : Waiter), (s.take turn).waiters[i]? = some w →
        w.state = .asleep → s.waiters[i]? = some w ∨ s.table.owns w.path w.handle = true)
      (patient : ∀ (i : Nat) (w : Waiter), s.waiters[i]? = some w → w.state = .asleep →
        w.limited = false → (s.take turn).waiters[i]? = some w)

theorem state_wake_ne (w : Waiter) : w.wake.state ≠ .asleep := by
  unfold Waiter.wake
  split
  · simp
  · assumption

theorem not_asleep_of_wakeAll (s : Handshake) : ∀ w ∈ s.wakeAll.waiters, w.state ≠ .asleep := by
  intro w hw
  obtain ⟨v, -, rfl⟩ := List.mem_map.mp hw
  exact state_wake_ne v

theorem getElem?_move (s : Handshake) (i j : Nat) (state : Waiting) :
    (s.move j state).waiters[i]?
      = (s.waiters[i]?).map fun w => if j = i then { w with state } else w := by
  unfold move
  rw [List.getElem?_modify]
  rfl

theorem does_of_same (hstays : s.take turn = s) (silent : s.wakes turn = false) : s.Does turn := by
  refine .looks (by rw [hstays]) silent (fun i w hi _ => .inl ?_) fun i w hi _ _ => ?_
  · rwa [hstays] at hi
  · rwa [hstays]

/-- A waiter that was awake, or whose time is up, is put into another state; asleep only if it has seen
the pair. -/
theorem does_of_move {v : Waiter} {state : Waiting} (hv : s.waiters[i]? = some v)
    (hafter : s.take turn = s.move i state) (silent : s.wakes turn = false)
    (hgoes : v.state ≠ .asleep ∨ v.limited = true)
    (hsees : state = .asleep → s.table.owns v.path v.handle = true) : s.Does turn := by
  refine .looks (by rw [hafter]; rfl) silent (fun k w hk hw => ?_) fun k w hk hw hpatient => ?_
  · rw [hafter, getElem?_move] at hk
    obtain ⟨u, hu, rfl⟩ := Option.map_eq_some_iff.mp hk
    by_cases hik : i = k
    · subst hik
      rw [hv, Option.some.injEq] at hu
      subst hu
      rw [if_pos rfl] at hw ⊢
      exact .inr (hsees hw)
    · rw [if_neg hik]
      exact .inl hu
  · have hik : i ≠ k := by
      rintro rfl
      rw [hv, Option.some.injEq] at hk
      subst hk
      rcases hgoes with hawake | hlimited
      · exact hawake hw
      · rw [hpatient] at hlimited
        cases hlimited
    rw [hafter, getElem?_move, hk, Option.map_some, if_neg hik]

theorem does_look (s : Handshake) (i : Nat) : s.Does (.look i) := by
  cases hv : s.waiters[i]? with
  | none => exact does_of_same (by simp only [take, look, hv]) rfl
  | some v =>
    by_cases hawake : v.state = .awake
    · have hgoes : v.state ≠ .asleep := by
        rw [hawake]
        exact Waiting.noConfusion
      cases howns : s.table.owns v.path v.handle with
      | false =>
        have hafter : s.take (.look i) = s.move i (.returned true) := by
          simp [take, look, hv, hawake, WatchTable.wait, howns]
        exact does_of_move hv hafter rfl (.inl hgoes) nofun
      | true =>
        have hafter : s.take (.look i) = s.move i .asleep := by
          simp [take, look, hv, hawake, WatchTable.wait, howns]
        exact does_of_move hv hafter rfl (.inl hgoes) fun _ => howns
    · exact does_of_same (by simp [take, look, hv, hawake]) rfl

theorem does_expire (s : Handshake) (i : Nat) : s.Does (.expire i) := by
  cases hv : s.waiters[i]? with
  | none => exact does_of_same (by simp only [take, expire, hv]) (by simp only [wakes, hv])
  | some v =>
    by_cases hdue : v.limited = true ∧ v.state = .asleep
    · obtain ⟨hlimited, hasleep⟩ := hdue
      cases howns : s.table.owns v.path v.handle with
      | true =>
        have hwakes : s.wakes (.expire i) = true := by simp [wakes, hv, hlimited, hasleep, howns]
        have hafter : s.take (.expire i) = ({ s with table := (s.table.removeHandle v.handle).2 }.move i
            (.returned false)).wakeAll := by
          simp [take, expire, hv, hlimited, hasleep, WatchTable.wait, howns]
        refine .removes v.handle (by rw [hafter]; rfl) hwakes ?_
        rw [hafter]
        exact not_asleep_of_wakeAll _
      | false =>
        have hafter : s.take (.expire i) = s.move i (.returned true) := by
          simp [take, expire, hv, hlimited, hasleep, WatchTable.wait, howns]
        exact does_of_move hv hafter (by simp [wakes, hv, howns]) (.inr hlimited) nofun
    · have hidle : (v.limited && decide (v.state = .asleep)) = false := by simpa using hdue
      exact does_of_same (by simp [take, expire, hv, hidle]) (by simp [wakes, hv, hidle])

/-- **What a turn does.** -/
theorem does_take (s : Handshake) (turn : Turn) : s.Does turn := by
  cases turn with
  | enter p h limited =>
    refine .looks rfl rfl (fun i w hi hw => .inl ?_) fun i w hi _ _ => ?_
    · rw [take, enter, List.getElem?_append] at hi
      split at hi
      · exact hi
      · -- A newcomer has not looked yet.
        obtain rfl := List.mem_singleton.mp (List.mem_of_getElem? hi)
        cases hw
    · rw [take, enter, List.getElem?_append_left (List.getElem?_eq_some_iff.mp hi).1]
      exact hi
  | call c =>
    cases c with
    | register p flags granted =>
      cases granted with
      | error f => exact does_of_same rfl rfl
      | ok h => exact .registers p flags h _ rfl rfl
    | purge h => exact .removes h rfl rfl (not_asleep_of_wakeAll _)
    | clear => exact .clears rfl rfl (not_asleep_of_wakeAll _)
  | look i => exact s.does_look i
  | expire i => exact s.does_expire i

theorem paired_take (paired : s.table.Paired) (turn : Turn) : (s.take turn).table.Paired := by
  cases s.does_take turn with
  | removes h table _ _ =>
    rw [table]
    exact paired.removeHandle h
  | clears table _ _ =>
    rw [table]
    exact WatchTable.paired_empty
  | registers p flags h wanted _ after =>
    rw [after]
    exact paired.insert p ⟨h, wanted⟩
  | looks table _ _ _ =>
    rw [table]
    exact paired

theorem paired_run (turns : List Turn) : ((ofTable .empty).run turns).table.Paired := by
  induction turns using List.reverseRecOn with
  | nil => exact WatchTable.paired_empty
  | append_singleton turns turn ih =>
    rw [run_concat]
    exact paired_take ih turn

/-! ## Those who are not woken -/

/-- **Whoever ends a pair wakes everybody, or displaces it** by a registration. -/
theorem wakes_or_displaces (paired : s.table.Paired) (howns : s.table.owns p h = true)
    (hends : (s.take turn).table.owns p h = false) :
    (s.wakes turn = true ∧ ∀ w ∈ (s.take turn).waiters, w.state ≠ .asleep) ∨
      ∃ q flags g, turn = .call (.register q flags (.ok g)) ∧ WatchTable.Displaces q g p h := by
  cases s.does_take turn with
  | removes _ _ wakes woken | clears _ wakes woken => exact .inl ⟨wakes, woken⟩
  | registers q flags g wanted registration after =>
    rw [after] at hends
    exact .inr ⟨q, flags, g, registration, (paired.ended_iff_displaces _ howns).mp hends⟩
  | looks table _ _ _ =>
    rw [table, howns] at hends
    cases hends

/-- A waiter sleeps, and its handle does not stand for its path any more. -/
structure Stranded (s : Handshake) (i : Nat) (w : Waiter) : Prop where
  place : s.waiters[i]? = some w
  asleep : w.state = .asleep
  ended : s.table.owns w.path w.handle = false

/-- The step lemma: a waiter is stranded after a turn that wakes nobody, and was so before it, or it
slept when the turn displaced its pair. -/
theorem Stranded.of_take (paired : s.table.Paired) (stranded : (s.take turn).Stranded i w) :
    (s.wakes turn = false ∧ s.Stranded i w) ∨
      s.waiters[i]? = some w ∧ s.table.owns w.path w.handle = true ∧
        ∃ q flags g, turn = .call (.register q flags (.ok g)) ∧
          WatchTable.Displaces q g w.path w.handle := by
  obtain ⟨place, asleep, ended⟩ := stranded
  cases s.does_take turn with
  | removes _ _ _ woken | clears _ _ woken =>
    exact absurd asleep (woken w (List.mem_of_getElem? place))
  | registers q flags g wanted registration after =>
    have hplace : s.waiters[i]? = some w := by
      rw [after] at place
      exact place
    cases howns : s.table.owns w.path w.handle with
    | false => exact .inl ⟨by rw [registration]; rfl, hplace, asleep, howns⟩
    | true =>
      rw [after] at ended
      have displaces := (paired.ended_iff_displaces _ howns).mp ended
      exact .inr ⟨hplace, rfl, q, flags, g, registration, displaces⟩
  | looks table silent sleepers _ =>
    rw [table] at ended
    rcases sleepers i w place asleep with hplace | howns
    · exact .inl ⟨silent, hplace, asleep, ended⟩
    · rw [howns] at ended
      cases ended

/-- **Only a registration is slept through.**  Take any callers and any waiters, each of which makes
its turns whenever it likes.  Every turn that ends a pair wakes everybody, unless it is a registration
that displaces the pair.  So a waiter that is stranded slept when such a registration displaced the
pair it waits for, and nobody was woken since. -/
theorem slept_through_only_registration (turns : List Turn) :
    (∀ turn p h, ((ofTable .empty).run turns).table.owns p h = true →
      ((ofTable .empty).run (turns ++ [turn])).table.owns p h = false →
      (∀ w ∈ ((ofTable .empty).run (turns ++ [turn])).waiters, w.state ≠ .asleep) ∨
        ∃ q flags g, turn = .call (.register q flags (.ok g)) ∧ WatchTable.Displaces q g p h) ∧
    ∀ i w, ((ofTable .empty).run turns).Stranded i w → ∃ before q flags g after,
      turns = before ++ .call (.register q flags (.ok g)) :: after ∧
        ((ofTable .empty).run before).waiters[i]? = some w ∧
        ((ofTable .empty).run before).table.owns w.path w.handle = true ∧
        WatchTable.Displaces q g w.path w.handle ∧
        ((ofTable .empty).run (before ++ [.call (.register q flags (.ok g))])).Unheard after := by
  constructor
  · intro turn p h howns hends
    rw [run_concat] at hends ⊢
    exact (wakes_or_displaces (paired_run turns) howns hends).imp_left And.right
  · induction turns using List.reverseRecOn with
    | nil =>
      rintro i w ⟨place, -, -⟩
      cases place
    | append_singleton turns turn ih =>
      intro i w stranded
      rw [run_concat] at stranded
      rcases stranded.of_take (paired_run turns) with
        ⟨silent, stranded⟩ | ⟨place, howns, q, flags, g, rfl, displaces⟩
      · obtain ⟨before, q, flags, g, after, rfl, place, howns, displaces, unheard⟩ := ih i w stranded
        refine ⟨before, q, flags, g, after ++ [turn], ?_, place, howns, displaces, ?_⟩
        · rw [List.append_assoc, List.cons_append]
        · refine unheard_concat unheard ?_
          rwa [← run_append, List.append_assoc, List.singleton_append]
      · exact ⟨turns, q, flags, g, [], rfl, place, howns, displaces, trivial⟩

/-! ## Where a wakeup is lost -/

/-- A waiter without a limit sleeps on as long as nobody is woken. -/
theorem asleep_of_silent (place : s.waiters[i]? = some w) (asleep : w.state = .asleep)
    (patient : w.limited = false) (silent : s.wakes turn = false) :
    (s.take turn).waiters[i]? = some w := by
  cases s.does_take turn with
  | removes _ _ wakes _ | clears _ wakes _ =>
    rw [silent] at wakes
    cases wakes
  | registers _ _ _ _ _ after =>
    rw [after]
    exact place
  | looks _ _ _ sleeps_on => exact sleeps_on i w place asleep patient

theorem asleep_of_unheard (place : s.waiters[i]? = some w) (asleep : w.state = .asleep)
    (patient : w.limited = false) {turns : List Turn} (unheard : s.Unheard turns) :
    (s.run turns).waiters[i]? = some w := by
  induction turns generalizing s with
  | nil => exact place
  | cons turn rest ih =>
    exact ih (asleep_of_silent place asleep patient unheard.1) unheard.2

/-- A registration strands those who sleep for a pair that it displaces. -/
theorem stranded_of_displaces (paired : s.table.Paired) (place : s.waiters[i]? = some w)
    (asleep : w.state = .asleep) (howns : s.table.owns w.path w.handle = true)
    (displaces : WatchTable.Displaces p h w.path w.handle) (flags : Mask) :
    (s.take (.call (.register p flags (.ok h)))).Stranded i w :=
  ⟨place, asleep, (paired.ended_iff_displaces ⟨h, _⟩ howns).mpr displaces⟩

/-- A waiter without a limit that is stranded, and sleeps on as long as nobody is woken. -/
structure Forgotten (s : Handshake) (i : Nat) (w : Waiter) : Prop where
  stranded : s.Stranded i w
  patient : w.limited = false
  sleeps_on : ∀ turns, s.Unheard turns → (s.run turns).waiters[i]? = some w

/-- Somebody waits for the path `a` and watch 1, and has gone to sleep. -/
def sleeping : List Turn :=
  [.call (.register ⟨[0x61]⟩ Mask.modify (.ok ⟨1⟩)), .enter ⟨[0x61]⟩ ⟨1⟩ false, .look 0]

def sleeper : Waiter := ⟨⟨[0x61]⟩, ⟨1⟩, false, .asleep⟩

/-- The path comes to have another watch. -/
def relinked : Turn := .call (.register ⟨[0x61]⟩ Mask.modify (.ok ⟨2⟩))

/-- Another path comes to have the watch. -/
def renamed : Turn := .call (.register ⟨[0x62]⟩ Mask.modify (.ok ⟨1⟩))

theorem slept_through_only_registration_relinked :
    (∀ w ∈ ((ofTable .empty).run (sleeping ++ [relinked] ++ [.call (.purge ⟨2⟩)])).waiters,
      w.state ≠ .asleep) ∧
    ((ofTable .empty).run (sleeping ++ [relinked])).Stranded 0 sleeper ∧
    ∃ before q flags g after,
      sleeping ++ [relinked] = before ++ .call (.register q flags (.ok g)) :: after ∧
        WatchTable.Displaces q g sleeper.path sleeper.handle := by
  have hstranded : ((ofTable .empty).run (sleeping ++ [relinked])).Stranded 0 sleeper :=
    ⟨rfl, rfl, rfl⟩
  obtain ⟨hwakes, hslept⟩ := slept_through_only_registration (sleeping ++ [relinked])
  refine ⟨?_, hstranded, ?_⟩
  · rcases hwakes (.call (.purge ⟨2⟩)) ⟨[0x61]⟩ ⟨2⟩ rfl rfl with hwoken | hregisters
    · exact hwoken
    · obtain ⟨q, flags, g, hturn, -⟩ := hregisters
      cases hturn
  · obtain ⟨before, q, flags, g, after, hturns, -, -, displaces, -⟩ := hslept 0 sleeper hstranded
    exact ⟨before, q, flags, g, after, hturns, displaces⟩

/-- **Where a wakeup is lost.**  Somebody sleeps until watch 1 does not stand for `a` any more.  This
comes about when `a` is registered again and gets watch 2, and when `b` is registered and gets watch 1.
In both cases nobody tells. -/
theorem wakeup_lost :
    ((ofTable .empty).run (sleeping ++ [relinked])).Forgotten 0 sleeper ∧
      ((ofTable .empty).run (sleeping ++ [renamed])).Forgotten 0 sleeper := by
  have hpaired := paired_run sleeping
  have hplace : ((ofTable .empty).run sleeping).waiters[0]? = some sleeper := rfl
  have howns : ((ofTable .empty).run sleeping).table.owns sleeper.path sleeper.handle = true := rfl
  have hforgotten : ∀ {p h}, WatchTable.Displaces p h sleeper.path sleeper.handle →
      ((ofTable .empty).run (sleeping ++ [.call (.register p Mask.modify (.ok h))])).Forgotten 0
        sleeper := by
    intro p h displaces
    rw [run_concat]
    have hstranded := stranded_of_displaces hpaired hplace rfl howns displaces Mask.modify
    exact ⟨hstranded, rfl, fun _ => asleep_of_unheard hstranded.place rfl rfl⟩
  exact ⟨hforgotten (.inl ⟨by decide, by decide⟩), hforgotten (.inr ⟨by decide, by decide⟩)⟩

end Handshake

end FileWatch
