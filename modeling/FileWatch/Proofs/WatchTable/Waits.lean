import Mathlib
import FileWatch.Proofs.WatchTable.Wakeups
import FileWatch.Reader

/-!
# Waits that nobody can disturb

A caller waits until a handle no longer stands for a path, and while it waits anything may happen:
others register, purge and clear, others wait, and the waiter itself wakes up when it should and when it
should not.  What it says when it returns is true all the same, and it takes nothing from the table but the
one pair it waits for.

This comes from what a single happening can do to a waiter (`Befalls`).  Either it goes on to
wait, and what it has done itself has changed nothing; or it has seen that the pair is gone; or its time is
up and it has found the pair still there, and has removed it in the same breath.  There is no time between
the look and the removal in which the path could get another handle.

A handle that has been removed comes back only when it is granted anew (`unresolved_undergoAll`), so
when the kernel confirms the removal late there is nothing left to do.
-/

namespace FileWatch

namespace WatchTable

variable {t : WatchTable} {p q : Path} {g h : Handle}

/-! ## What goes with a handle -/

theorem removeHandle_of_unresolved (hnone : t.resolve? h = none) : t.removeHandle h = (none, t) := by
  unfold removeHandle
  rw [show t.byHandle.find? h = none from hnone]

theorem removeHandle_of_resolved (hp : t.resolve? h = some p) : t.removeHandle h =
    (some p, ⟨if t.handleOf? p = some h then t.byPath.erase p else t.byPath, t.byHandle.erase h⟩) := by
  unfold removeHandle
  rw [show t.byHandle.find? h = some p from hp]

theorem resolve?_removeHandle (t : WatchTable) (g h : Handle) :
    (t.removeHandle h).2.resolve? g = if h = g then none else t.resolve? g := by
  cases hres : t.resolve? h with
  | none =>
    rw [removeHandle_of_unresolved hres]
    split
    · rename_i hsame
      rw [← hsame, hres]
    · rfl
  | some x =>
    rw [removeHandle_of_resolved hres, resolve?, Dict.find?_erase]
    simp only [beq_iff_eq]
    rfl

/-- A path goes with its handle if each stands for the other. -/
theorem entry?_removeHandle (t : WatchTable) (q : Path) (h : Handle) :
    entry? (t.removeHandle h).2 q =
      if t.owns q h = true ∧ t.handleOf? q = some h then none else t.entry? q := by
  cases hres : t.resolve? h with
  | none =>
    rw [removeHandle_of_unresolved hres, owns, hres]
    simp
  | some x =>
    have howns : t.owns q h = (x == q) := by rw [owns, hres]
    rw [removeHandle_of_resolved hres, howns, entry?]
    simp only
    by_cases hkey : (x == q) = true
    · rw [handleOf?_congr hkey]
      by_cases hhandle : t.handleOf? q = some h
      · rw [if_pos hhandle, if_pos ⟨hkey, hhandle⟩, Dict.find?_erase, if_pos hkey]
      · rw [if_neg hhandle, if_neg fun hboth => hhandle hboth.2]
        rfl
    · have hneither : ¬ ((x == q) = true ∧ t.handleOf? q = some h) := fun hboth => hkey hboth.1
      rw [if_neg hneither]
      split
      · rw [Dict.find?_erase, if_neg hkey]
        rfl
      · rfl

theorem owns_removeHandle (t : WatchTable) (p : Path) (h : Handle) :
    (t.removeHandle h).2.owns p h = false := by
  unfold owns
  rw [resolve?_removeHandle, if_pos rfl]

/-- Of the first table nothing is missing in the second, and nothing is new, but for a path and a handle
that stood for each other. -/
structure Spares (p : Path) (h : Handle) (t t' : WatchTable) : Prop where
  entry : ∀ q, t'.entry? q ≠ t.entry? q →
    (q == p) = true ∧ t.handleOf? q = some h ∧ t'.entry? q = none
  handle : ∀ g, t'.resolve? g ≠ t.resolve? g → g = h ∧ t.owns p h = true ∧ t'.resolve? g = none

theorem Spares.refl (p : Path) (h : Handle) (t : WatchTable) : t.Spares p h t :=
  ⟨fun _ hne => absurd rfl hne, fun _ hne => absurd rfl hne⟩

/-- A path that a handle stands for is `==` to any other one it stands for. -/
theorem beq_of_owns (hq : t.owns q h = true) (hp : t.owns p h = true) : (q == p) = true := by
  obtain ⟨x, hx, hxq⟩ := owns_iff.mp hq
  obtain ⟨y, hy, hyp⟩ := owns_iff.mp hp
  rw [hx, Option.some.injEq] at hy
  exact BEq.trans (BEq.symm hxq) (hy ▸ hyp)

theorem spares_removeHandle (howns : t.owns p h = true) : t.Spares p h (t.removeHandle h).2 where
  entry := by
    intro q hne
    rw [entry?_removeHandle] at hne ⊢
    split at hne
    · rename_i hpair
      rw [if_pos hpair]
      exact ⟨beq_of_owns hpair.1 howns, hpair.2, rfl⟩
    · exact absurd rfl hne
  handle := by
    intro g hne
    rw [resolve?_removeHandle] at hne ⊢
    split at hne
    · rename_i hsame
      rw [if_pos hsame]
      exact ⟨hsame.symm, howns, rfl⟩
    · exact absurd rfl hne

end WatchTable

namespace Handshake

/-! ## What happens while somebody waits -/

/-- Somebody makes a turn, or one who waits is woken for no reason. -/
inductive Happening where
  | turn (turn : Turn)
  | rouse (i : Nat)

/-- One who waits is woken, and nothing else happens. -/
def rouse (s : Handshake) (i : Nat) : Handshake := { s with waiters := s.waiters.modify i Waiter.wake }

def undergo (s : Handshake) : Happening → Handshake
  | .turn turn => s.take turn
  | .rouse i => s.rouse i

def undergoAll (s : Handshake) (course : List Happening) : Handshake := course.foldl undergo s

/-- Whether one who waits does it, and not somebody else. -/
def Happening.isOf (i : Nat) : Happening → Bool
  | .turn (.look j) => j == i
  | .turn (.expire j) => j == i
  | .rouse j => j == i
  | _ => false

variable {s : Handshake} {w v : Waiter} {i j : Nat} {p : Path} {h : Handle} {limited : Bool}
  {a : Happening} {course : List Happening}

theorem undergoAll_concat (s : Handshake) (course : List Happening) (a : Happening) :
    s.undergoAll (course ++ [a]) = (s.undergoAll course).undergo a := List.foldl_concat _ _ _ _

theorem paired_undergo (paired : s.table.Paired) (a : Happening) : (s.undergo a).table.Paired := by
  cases a with
  | turn turn => exact paired_take paired turn
  | rouse i => exact paired

theorem paired_undergoAll (paired : s.table.Paired) (course : List Happening) :
    (s.undergoAll course).table.Paired := by
  induction course using List.reverseRecOn with
  | nil => exact paired
  | append_singleton course a ih =>
    rw [undergoAll_concat]
    exact paired_undergo ih a

/-- What a happening does to one who waits. -/
inductive Befalls (s : Handshake) (i : Nat) (w : Waiter) (a : Happening) : Prop
  /-- It sleeps, is awake or has returned, and has returned if it had before; what it has done itself has
  not changed the table.  If its time is up, it has noticed that before. -/
  | passes (state : Waiting) (place : (s.undergo a).waiters[i]? = some { w with state })
      (same : ∀ b, state = .returned b ↔ w.state = .returned b)
      (own : a.isOf i = true → (s.undergo a).table = s.table)
      (untimed : a = .turn (.expire i) → w.limited = true → w.state ≠ .asleep)
  /-- It finds that the pair is gone. -/
  | confirmed (own : a.isOf i = true) (ended : s.table.owns w.path w.handle = false)
      (after : s.undergo a = s.move i (.returned true))
  /-- It finds that its time is up and the pair is still there. -/
  | forced (expires : a = .turn (.expire i)) (due : w.limited = true)
      (owns : s.table.owns w.path w.handle = true)
      (after : s.undergo a =
        ({ s with table := (s.table.removeHandle w.handle).2 }.move i (.returned false)).wakeAll)

theorem wake_eq (w : Waiter) : w.wake = { w with state := w.wake.state } := by
  unfold Waiter.wake
  split <;> rfl

theorem state_wake_eq_returned_iff (w : Waiter) (b : Bool) :
    w.wake.state = .returned b ↔ w.state = .returned b := by
  unfold Waiter.wake
  split
  · rename_i hasleep
    rw [hasleep]
    simp
  · rfl

theorem getElem?_wakeAll (s : Handshake) (i : Nat) :
    s.wakeAll.waiters[i]? = (s.waiters[i]?).map Waiter.wake := List.getElem?_map

theorem place_move (place : s.waiters[i]? = some w) (state : Waiting) :
    (s.move i state).waiters[i]? = some { w with state } := by
  rw [getElem?_move, place, Option.map_some, if_pos rfl]

/-- What others do to a waiter: nothing, or they wake it. -/
theorem befalls_of_woken (place : (s.undergo a).waiters[i]? = some v) (hv : v = w ∨ v = w.wake)
    (own : a.isOf i = true → (s.undergo a).table = s.table)
    (untimed : a = .turn (.expire i) → w.limited = true → w.state ≠ .asleep) : s.Befalls i w a := by
  rcases hv with rfl | rfl
  · exact .passes v.state place (fun _ => Iff.rfl) own untimed
  · rw [wake_eq] at place
    exact .passes w.wake.state place (state_wake_eq_returned_iff w) own untimed

/-- A look puts the waiter that looks into another state, or does nothing. -/
theorem look_cases (s : Handshake) (j : Nat) : s.look j = s ∨ ∃ state, s.look j = s.move j state := by
  cases hv : s.waiters[j]? with
  | none => exact .inl (by simp [look, hv])
  | some v =>
    by_cases hawake : v.state = .awake
    · cases howns : s.table.owns v.path v.handle with
      | false => exact .inr ⟨.returned true, by simp [look, hv, hawake, WatchTable.wait, howns]⟩
      | true => exact .inr ⟨.asleep, by simp [look, hv, hawake, WatchTable.wait, howns]⟩
    · exact .inl (by simp [look, hv, hawake])

theorem befalls_look (place : s.waiters[i]? = some w) (j : Nat) :
    s.Befalls i w (.turn (.look j)) := by
  have hundergo : s.undergo (.turn (.look j)) = s.look j := rfl
  have huntimed : Happening.turn (.look j) = .turn (.expire i) → w.limited = true →
      w.state ≠ .asleep := by
    intro hturn
    cases hturn
  by_cases hij : j = i
  · subst hij
    by_cases hawake : w.state = .awake
    · cases howns : s.table.owns w.path w.handle with
      | false =>
        have hafter : s.undergo (.turn (.look j)) = s.move j (.returned true) := by
          simp [hundergo, look, place, hawake, WatchTable.wait, howns]
        exact .confirmed BEq.rfl howns hafter
      | true =>
        have hafter : s.undergo (.turn (.look j)) = s.move j .asleep := by
          simp [hundergo, look, place, hawake, WatchTable.wait, howns]
        refine .passes .asleep ?_ ?_ ?_ huntimed
        · rw [hafter, place_move place]
        · simp [hawake]
        · intro _
          rw [hafter]
          rfl
    · have hafter : s.undergo (.turn (.look j)) = s := by simp [hundergo, look, place, hawake]
      refine befalls_of_woken (v := w) ?_ (.inl rfl) ?_ huntimed
      · rw [hafter, place]
      · intro _
        rw [hafter]
  · have hplace : (s.look j).waiters[i]? = some w := by
      rcases s.look_cases j with hafter | ⟨state, hafter⟩
      · rw [hafter, place]
      · rw [hafter, getElem?_move, place, Option.map_some, if_neg hij]
    refine befalls_of_woken hplace (.inl rfl) ?_ huntimed
    intro hown
    exact absurd (eq_of_beq hown) hij

/-- So does the end of the time of a waiter, and it may change the table and wake everybody besides. -/
theorem expire_cases (s : Handshake) (j : Nat) : s.expire j = s ∨
    (∃ state, s.expire j = s.move j state) ∨
      ∃ table state, s.expire j = ({ s with table }.move j state).wakeAll := by
  cases hv : s.waiters[j]? with
  | none => exact .inl (by simp [expire, hv])
  | some v =>
    cases hdue : v.limited && decide (v.state = .asleep) with
    | false => exact .inl (by simp [expire, hv, hdue])
    | true =>
      cases howns : s.table.owns v.path v.handle with
      | false => exact .inr (.inl ⟨.returned true, by simp [expire, hv, hdue, WatchTable.wait, howns]⟩)
      | true =>
        refine .inr (.inr ⟨(s.table.removeHandle v.handle).2, .returned false, ?_⟩)
        simp [expire, hv, hdue, WatchTable.wait, howns]

theorem befalls_expire (place : s.waiters[i]? = some w) (j : Nat) :
    s.Befalls i w (.turn (.expire j)) := by
  have hundergo : s.undergo (.turn (.expire j)) = s.expire j := rfl
  by_cases hij : j = i
  · subst hij
    by_cases hdue : w.limited = true ∧ w.state = .asleep
    · obtain ⟨hlimited, hasleep⟩ := hdue
      cases howns : s.table.owns w.path w.handle with
      | false =>
        have hafter : s.undergo (.turn (.expire j)) = s.move j (.returned true) := by
          simp [hundergo, expire, place, hlimited, hasleep, WatchTable.wait, howns]
        exact .confirmed BEq.rfl howns hafter
      | true =>
        have hafter : s.undergo (.turn (.expire j)) =
            ({ s with table := (s.table.removeHandle w.handle).2 }.move j (.returned false)).wakeAll := by
          simp [hundergo, expire, place, hlimited, hasleep, WatchTable.wait, howns]
        exact .forced rfl hlimited howns hafter
    · have hidle : (w.limited && decide (w.state = .asleep)) = false := by simpa using hdue
      have hafter : s.undergo (.turn (.expire j)) = s := by simp [hundergo, expire, place, hidle]
      refine befalls_of_woken (v := w) ?_ (.inl rfl) ?_ ?_
      · rw [hafter, place]
      · intro _
        rw [hafter]
      · intro _ hlimited hasleep
        exact hdue ⟨hlimited, hasleep⟩
  · have hplace : (s.expire j).waiters[i]? = some w ∨ (s.expire j).waiters[i]? = some w.wake := by
      rcases s.expire_cases j with hafter | ⟨state, hafter⟩ | ⟨table, state, hafter⟩
      · exact .inl (by rw [hafter, place])
      · exact .inl (by rw [hafter, getElem?_move, place, Option.map_some, if_neg hij])
      · right
        rw [hafter, getElem?_wakeAll, getElem?_move]
        show (s.waiters[i]?.map _).map Waiter.wake = some w.wake
        rw [place, Option.map_some, if_neg hij, Option.map_some]
    have hothers : ∀ {v : Waiter}, (s.expire j).waiters[i]? = some v → v = w ∨ v = w.wake →
        s.Befalls i w (.turn (.expire j)) := by
      intro v hv hsame
      refine befalls_of_woken hv hsame ?_ ?_
      · intro hown
        exact absurd (eq_of_beq hown) hij
      · intro hturn
        cases hturn
        exact absurd rfl hij
    rcases hplace with hplace | hplace
    · exact hothers hplace (.inl rfl)
    · exact hothers hplace (.inr rfl)

/-- **What a happening does to a waiter.** -/
theorem befalls (place : s.waiters[i]? = some w) (a : Happening) : s.Befalls i w a := by
  cases a with
  | rouse j =>
    have hplace : (s.rouse j).waiters[i]? = some (if j = i then w.wake else w) := by
      unfold rouse
      rw [List.getElem?_modify, place]
      rfl
    refine befalls_of_woken hplace ?_ (fun _ => rfl) nofun
    split
    · exact .inr rfl
    · exact .inl rfl
  | turn turn =>
    cases turn with
    | enter p h limited =>
      have hplace : (s.enter (.fresh p h limited)).waiters[i]? = some w := by
        unfold enter
        rw [List.getElem?_append_left (List.getElem?_eq_some_iff.mp place).1, place]
      exact befalls_of_woken hplace (.inl rfl) nofun nofun
    | call c =>
      cases hwakes : c.wakes with
      | false =>
        have hplace : (s.call c).waiters[i]? = some w := by simpa [call, hwakes] using place
        exact befalls_of_woken hplace (.inl rfl) nofun nofun
      | true =>
        have hplace : (s.call c).waiters[i]? = some w.wake := by
          simp [call, hwakes, getElem?_wakeAll, place]
        exact befalls_of_woken hplace (.inr rfl) nofun nofun
    | look j => exact befalls_look place j
    | expire j => exact befalls_expire place j

/-! ## Until it returns -/

theorem result?_eq_some_iff (place : s.waiters[i]? = some w) {b : Bool} :
    s.result? i = some b ↔ w.state = .returned b := by
  unfold result?
  rw [place, Option.bind_some]
  cases w.state <;> simp

theorem result?_move (place : s.waiters[i]? = some w) (b : Bool) :
    (s.move i (.returned b)).result? i = some b :=
  (result?_eq_some_iff (place_move place (.returned b))).mpr rfl

theorem result?_wakeAll (s : Handshake) (i : Nat) : s.wakeAll.result? i = s.result? i := by
  unfold result?
  rw [getElem?_wakeAll]
  cases s.waiters[i]? with
  | none => rfl
  | some w =>
    rw [Option.map_some, Option.bind_some, Option.bind_some]
    unfold Waiter.wake
    cases hstate : w.state <;> simp [hstate]

/-- A waiter waits for what it has waited for all along. -/
theorem exists_place (place : s.waiters[i]? = some w) (course : List Happening) :
    ∃ state, (s.undergoAll course).waiters[i]? = some { w with state } := by
  induction course using List.reverseRecOn with
  | nil => exact ⟨w.state, place⟩
  | append_singleton course a ih =>
    obtain ⟨state, hplace⟩ := ih
    rw [undergoAll_concat]
    cases befalls hplace a with
    | passes state hafter _ _ _ => exact ⟨state, hafter⟩
    | confirmed _ _ after =>
      refine ⟨.returned true, ?_⟩
      rw [after, place_move hplace]
    | forced _ _ _ after =>
      refine ⟨.returned false, ?_⟩
      rw [after, getElem?_wakeAll, place_move (by exact hplace)]
      rfl

/-- How a waiter returns. -/
theorem returns_cases (place : s.waiters[i]? = some w) (waits : s.result? i = none) {b : Bool}
    (returns : (s.undergo a).result? i = some b) :
    (b = true ∧ s.table.owns w.path w.handle = false ∧ (s.undergo a).table = s.table) ∨
      (b = false ∧ a = .turn (.expire i) ∧ w.limited = true ∧ s.table.owns w.path w.handle = true ∧
        (s.undergo a).table = (s.table.removeHandle w.handle).2) := by
  cases befalls place a with
  | passes state hafter same _ _ =>
    have hbefore := (result?_eq_some_iff place).mpr ((same b).mp ((result?_eq_some_iff hafter).mp returns))
    rw [waits] at hbefore
    cases hbefore
  | confirmed _ ended after =>
    rw [after, result?_move place, Option.some.injEq] at returns
    exact .inl ⟨returns.symm, ended, by rw [after]; rfl⟩
  | forced expires due owns after =>
    rw [after, result?_wakeAll, result?_move (by exact place), Option.some.injEq] at returns
    exact .inr ⟨returns.symm, expires, due, owns, by rw [after]; rfl⟩

/-- A waiter that has returned does not wait again. -/
theorem waits_before (place : s.waiters[i]? = some w) (waits : (s.undergo a).result? i = none) :
    s.result? i = none := by
  rw [Option.eq_none_iff_forall_ne_some] at waits ⊢
  intro b hb
  cases befalls place a with
  | passes state hafter same _ _ =>
    exact waits b ((result?_eq_some_iff hafter).mpr ((same b).mpr ((result?_eq_some_iff place).mp hb)))
  | confirmed _ _ after =>
    apply waits true
    rw [after, result?_move place]
  | forced _ _ _ after =>
    apply waits false
    rw [after, result?_wakeAll, result?_move (by exact place)]

/-- What a waiter does itself spares all but the pair it waits for. -/
theorem Befalls.spares (befalls : s.Befalls i w a) (own : a.isOf i = true) :
    s.table.Spares w.path w.handle (s.undergo a).table := by
  cases befalls with
  | passes _ _ _ untouched _ =>
    rw [untouched own]
    exact .refl _ _ _
  | confirmed _ _ after =>
    rw [after]
    exact .refl _ _ _
  | forced _ _ owns after =>
    rw [after]
    exact WatchTable.spares_removeHandle owns

/-- **When its time is up, a sleeping waiter returns.** -/
theorem returns_of_expire (place : s.waiters[i]? = some w) (due : w.limited = true)
    (asleep : w.state = .asleep) : (s.undergo (.turn (.expire i))).result? i ≠ none := by
  cases befalls place (.turn (.expire i)) with
  | passes _ _ _ _ untimed => exact absurd asleep (untimed rfl due)
  | confirmed _ _ after =>
    rw [after, result?_move place]
    exact Option.some_ne_none true
  | forced _ _ _ after =>
    rw [after, result?_wakeAll, result?_move (by exact place)]
    exact Option.some_ne_none false

/-- In the course of some happenings somebody else ends a pair. -/
def EndedByOther (s : Handshake) (i : Nat) (p : Path) (h : Handle) (course : List Happening) : Prop :=
  ∃ before a after, course = before ++ a :: after ∧ a.isOf i = false ∧
    (s.undergoAll before).table.owns p h = true ∧
    ((s.undergoAll before).undergo a).table.owns p h = false

/-- The run lemma: while a waiter waits, it is somebody else who ends the pair. -/
theorem ended_by_other (place : s.waiters[i]? = some w) (howns : s.table.owns w.path w.handle = true)
    (ended : (s.undergoAll course).table.owns w.path w.handle = false)
    (waits : (s.undergoAll course).result? i = none) :
    s.EndedByOther i w.path w.handle course := by
  induction course using List.reverseRecOn with
  | nil =>
    rw [show s.undergoAll [] = s from rfl, howns] at ended
    cases ended
  | append_singleton course a ih =>
    rw [undergoAll_concat] at ended waits
    obtain ⟨state, hplace⟩ := exists_place place course
    cases hnow : (s.undergoAll course).table.owns w.path w.handle with
    | false =>
      obtain ⟨before, b, after, rfl, hother, hbefore, hafter⟩ := ih hnow (waits_before hplace waits)
      refine ⟨before, b, after ++ [a], ?_, hother, hbefore, hafter⟩
      rw [List.append_assoc, List.cons_append]
    | true =>
      refine ⟨course, a, [], rfl, ?_, hnow, ended⟩
      rw [Bool.eq_false_iff]
      intro hown
      -- The waiter itself ends the pair only when it returns.
      cases befalls hplace a with
      | passes _ _ _ untouched _ =>
        rw [untouched hown, hnow] at ended
        cases ended
      | confirmed _ gone _ =>
        rw [hnow] at gone
        cases gone
      | forced _ _ _ after =>
        rw [after, result?_wakeAll, result?_move (by exact hplace)] at waits
        cases waits

/-! ## After it has returned -/

/-- A handle comes to stand for a path only when it is granted. -/
theorem unresolved_undergo (hnone : s.table.resolve? h = none)
    (ungranted : ∀ q flags, a ≠ .turn (.call (.register q flags (.ok h)))) :
    (s.undergo a).table.resolve? h = none := by
  cases a with
  | rouse j => exact hnone
  | turn turn =>
    show (s.take turn).table.resolve? h = none
    cases s.does_take turn with
    | removes g table _ _ =>
      rw [table, WatchTable.resolve?_removeHandle, hnone, ite_self]
    | clears table _ _ =>
      rw [table]
      exact Dict.find?_empty h
    | registers q flags g wanted registration after =>
      have hne : g ≠ h := by
        rintro rfl
        exact ungranted q flags (congrArg Happening.turn registration)
      rw [after]
      show (s.table.insert q ⟨g, wanted⟩).resolve? h = none
      rw [WatchTable.resolve?_insert, if_neg hne, hnone, ite_self]
    | looks table _ _ _ =>
      rw [table]
      exact hnone

theorem unresolved_undergoAll (hnone : s.table.resolve? h = none)
    (ungranted : ∀ q flags, Happening.turn (.call (.register q flags (.ok h))) ∉ course) :
    (s.undergoAll course).table.resolve? h = none := by
  induction course using List.reverseRecOn with
  | nil => exact hnone
  | append_singleton course a ih =>
    rw [undergoAll_concat]
    refine unresolved_undergo (ih ?_) ?_
    · intro q flags hmem
      exact ungranted q flags (List.mem_append_left _ hmem)
    · rintro q flags rfl
      exact ungranted q flags (List.mem_append_right _ (List.mem_singleton_self _))

end Handshake

/-- To be told that a watch is gone changes nothing where it is not known any more. -/
theorem Reader.dispatch_ignored_of_unresolved (pathExists : Path → Bool) {r : Reader} {rec : Record}
    (hover : rec.mask.has Mask.queueOverflow = false) (hignored : rec.mask.has Mask.ignored = true)
    (hnone : r.table.resolve? rec.handle = none) : r.dispatch pathExists rec = (true, r) := by
  unfold Reader.dispatch WatchTable.purge
  rw [hover, hignored, WatchTable.removeHandle_of_unresolved hnone]
  rfl

namespace Handshake

/-- **Nobody can disturb a wait.**  Somebody comes to a table, with whoever else may wait there, and anything
may happen in any order: others register, purge, clear and wait, and whoever waits is woken with or
without a reason or because its time is up.  When the newcomer returns, the handle does not stand for the path.  It
returns `false` only when its time is up, and then it has removed the pair itself in this very moment;
it returns `true` only if the pair was gone when it came, or somebody else has ended it since.  Whatever it
does, it spares all but the pair.  Once it sleeps and its time is up, it returns.  And when the handle
is not granted again, a late word of the kernel that the watch is gone changes nothing any more, whatever
the path has come to be since. -/
theorem wait_undisturbed (s : Handshake) (p : Path) (h : Handle) (limited : Bool)
    (course : List Happening) (a : Happening) :
    let start := s.enter (.fresh p h limited)
    let i := s.waiters.length
    let now := start.undergoAll course
    let next := now.undergo a
    (∀ b, now.result? i = none → next.result? i = some b →
      next.table.owns p h = false ∧ (s.table.Paired → next.table.handleOf? p ≠ some h) ∧
      (b = false → a = .turn (.expire i) ∧ limited = true ∧ now.table.owns p h = true ∧
        next.table = (now.table.removeHandle h).2) ∧
      (b = true → next.table = now.table ∧
        (s.table.owns p h = false ∨ start.EndedByOther i p h course))) ∧
    (a.isOf i = true → now.table.Spares p h next.table) ∧
    (a = .turn (.expire i) → limited = true → now.waiters[i]? = some ⟨p, h, limited, .asleep⟩ →
      next.result? i ≠ none) ∧
    (now.result? i = none → next.result? i = some false →
      ∀ later, (∀ q flags, Happening.turn (.call (.register q flags (.ok h))) ∉ later) →
      ∀ pathExists (r : Reader) (rec : Record), r.table = (next.undergoAll later).table →
        rec.handle = h → rec.mask.has Mask.ignored = true → rec.mask.has Mask.queueOverflow = false →
        r.dispatch pathExists rec = (true, r)) := by
  intro start i now next
  have hstart : start.waiters[i]? = some (.fresh p h limited) := List.getElem?_concat_length
  obtain ⟨state, hnow⟩ : ∃ state, now.waiters[i]? = some ⟨p, h, limited, state⟩ :=
    exists_place hstart course
  have hunowned : next.table.owns p h = false → s.table.Paired → next.table.handleOf? p ≠ some h := by
    intro hgone paired
    have hpaired : next.table.Paired :=
      paired_undergo (paired_undergoAll (s := start) paired course) a
    exact hpaired.handleOf?_ne_of_owns hgone
  refine ⟨?_, ?_, ?_, ?_⟩
  · intro b waits returns
    rcases returns_cases hnow waits returns with
      ⟨rfl, hended, hafter⟩ | ⟨rfl, hexpires, due, howns, hafter⟩
    · have hgone : next.table.owns p h = false := by
        rw [hafter]
        exact hended
      refine ⟨hgone, hunowned hgone, nofun, fun _ => ⟨hafter, ?_⟩⟩
      cases howned : s.table.owns p h with
      | false => exact .inl rfl
      | true => exact .inr (ended_by_other hstart howned hended waits)
    · have hgone : next.table.owns p h = false := by
        rw [hafter]
        exact WatchTable.owns_removeHandle _ _ _
      exact ⟨hgone, hunowned hgone, fun _ => ⟨hexpires, due, howns, hafter⟩, nofun⟩
  · exact (befalls hnow a).spares
  · intro hexpires due hasleep
    subst hexpires
    exact returns_of_expire hasleep due rfl
  · intro waits returns later ungranted pathExists r rec htable hhandle hignored hover
    have hnone : next.table.resolve? h = none := by
      rcases returns_cases hnow waits returns with ⟨hb, -⟩ | ⟨-, -, -, -, hafter⟩
      · cases hb
      · rw [show next.table = (now.table.removeHandle h).2 from hafter, WatchTable.resolve?_removeHandle,
          if_pos rfl]
    refine Reader.dispatch_ignored_of_unresolved pathExists hover hignored ?_
    rw [htable, hhandle]
    exact unresolved_undergoAll hnone ungranted

/-- The path `a` has watch 7. -/
def watched : Handshake := .ofTable (WatchTable.empty.insert ⟨[0x61]⟩ ⟨⟨7⟩, Mask.modify⟩)

/-- Somebody waits for a limited time, looks, is woken for no reason, and looks again. -/
def patient : List Happening := [.turn (.look 0), .rouse 0, .turn (.look 0)]

/-- The same, but somebody else purges the watch. -/
def answered : List Happening := [.turn (.look 0), .turn (.call (.purge ⟨7⟩))]

/-- How it goes on for somebody who waits for `a` and watch 7. -/
def waited (course : List Happening) : Handshake :=
  (watched.enter (.fresh ⟨[0x61]⟩ ⟨7⟩ true)).undergoAll course

def timeUp : Happening := .turn (.expire 0)

/-- The path is registered again and gets watch 9. -/
def rewatched : List Happening := [.turn (.call (.register ⟨[0x61]⟩ Mask.modify (.ok ⟨9⟩)))]

/-- A reader that comes to know of it when the path has got its new watch. -/
def lateReader : Reader := { Reader.fresh with table := (((waited patient).undergo timeUp).undergoAll
  rewatched).table }

/-- Without an answer the waiter removes the pair, and the answer then comes too late to do anything to
watch 9; with one, somebody else has ended the pair. -/
theorem wait_undisturbed_limited :
    (waited patient).result? 0 = none ∧ ((waited patient).undergo timeUp).result? 0 = some false ∧
    ((waited patient).undergo timeUp).table.handleOf? ⟨[0x61]⟩ ≠ some ⟨7⟩ ∧
    ((waited patient).undergo timeUp).table = ((waited patient).table.removeHandle ⟨7⟩).2 ∧
    (waited patient).table.Spares ⟨[0x61]⟩ ⟨7⟩ ((waited patient).undergo timeUp).table ∧
    (waited patient).waiters[0]? = some ⟨⟨[0x61]⟩, ⟨7⟩, true, .asleep⟩ ∧
    ((waited patient).undergo timeUp).result? 0 ≠ none ∧
    lateReader.table.handleOf? ⟨[0x61]⟩ = some ⟨9⟩ ∧
    lateReader.dispatch (fun _ => true) ⟨⟨7⟩, Mask.ignored, 0, none⟩ = (true, lateReader) ∧
    (waited answered).result? 0 = none ∧
    ((waited answered).undergo (.turn (.look 0))).result? 0 = some true ∧
    (watched.table.owns ⟨[0x61]⟩ ⟨7⟩ = false ∨
      (watched.enter (.fresh ⟨[0x61]⟩ ⟨7⟩ true)).EndedByOther 0 ⟨[0x61]⟩ ⟨7⟩ answered) := by
  have hpaired : watched.table.Paired := WatchTable.paired_empty.insert _ _
  have hwaits : (waited patient).result? 0 = none := by cbv
  have hforced : ((waited patient).undergo timeUp).result? 0 = some false := by cbv
  have hasleep : (waited patient).waiters[0]? = some ⟨⟨[0x61]⟩, ⟨7⟩, true, .asleep⟩ := by cbv
  have hwaits' : (waited answered).result? 0 = none := by cbv
  have hconfirmed : ((waited answered).undergo (.turn (.look 0))).result? 0 = some true := by cbv
  have hungranted : ∀ q flags,
      Happening.turn (.call (.register q flags (.ok ⟨7⟩))) ∉ rewatched := by
    simp [rewatched]
  obtain ⟨hreturn, hspares, hexpires, hlate⟩ :=
    wait_undisturbed watched ⟨[0x61]⟩ ⟨7⟩ true patient timeUp
  obtain ⟨hreturn', -⟩ := wait_undisturbed watched ⟨[0x61]⟩ ⟨7⟩ true answered (.turn (.look 0))
  obtain ⟨-, hhandle, hremoved, -⟩ := hreturn false hwaits hforced
  exact ⟨hwaits, hforced, hhandle hpaired, (hremoved rfl).2.2.2, hspares rfl, hasleep,
    hexpires rfl rfl hasleep, by cbv,
    hlate hwaits hforced rewatched hungranted _ lateReader _ rfl rfl (by decide) (by decide),
    hwaits', hconfirmed, ((hreturn' true hwaits' hconfirmed).2.2.2 rfl).2⟩

end Handshake

end FileWatch
