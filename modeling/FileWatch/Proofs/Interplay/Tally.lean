import FileWatch.Proofs.Interplay.Contested
import FileWatch.Proofs.Path.Parts

/-!
# The order in which calls count

Calls that come at once are given places in an order, each at one moment while it goes on: a registration
when it asks the kernel, a removal when it looks its path up and finds nothing, or when it has the watch
dropped.  The removals that have found the same watch get the places right after that one.

The places are `Serial`: a call that had returned before another one was made comes first, and each gets
what it gets when the calls are made in this order, one after the other.  What the paths have is then what
they have in turn (`Mirrors`).  There are two exceptions.  A removal that comes too late in turn may share
the removal of another call that goes on at the same time (`Rivalled`).  And a path that is registered
while its old watch is dead, but still in the table, asks for all that the old watch was registered for
(`Hurries`).

One move keeps all that (`Tallies`), by the cases of `Stride`.
-/

namespace FileWatch

namespace Interplay

variable {s₀ s t : Interplay} {m : Move} {past : List (Interplay × Move)} {order : List Nat}
  {i j k : Nat} {c d : Call} {p q : Path} {o : WatchOptions} {h : Handle} {u v : Watch}
  {kind : Interplay → Move → Prop} {find : Bool → Path → Except Errno Inode}
  {names : Path → Option Inode} {w : Watcher}

/-! ## What came before -/

/-- Moves of a certain kind lead from one state to another, through these states and by these moves.  The
latest comes first. -/
inductive Through (kind : Interplay → Move → Prop) (s₀ : Interplay) :
    List (Interplay × Move) → Interplay → Prop
  | refl : Through kind s₀ [] s₀
  | step {past : List (Interplay × Move)} {s t : Interplay} {m : Move}
    (before : Through kind s₀ past s) (allowed : kind s m) (fired : s.fire m = some t) :
    Through kind s₀ ((s, m) :: past) t

theorem Through.leads (through : Through kind s₀ past s) : Leads kind s₀ s := by
  induction through with
  | refl => exact .refl
  | step _ allowed fired ih => exact .step ih allowed fired

/-- A call had returned before another one was made. -/
def Precedes (past : List (Interplay × Move)) (i j : Nat) : Prop :=
  ∃ e ∈ past, (∃ c, e.1.calls[i]? = some c ∧ c.hasReturned = true) ∧ e.1.calls.length ≤ j

/-- A path was registered while a removal of it was under way: the table still had its watch, which the
kernel had dropped. -/
def Hurries (past : List (Interplay × Move)) (p : Path) : Prop :=
  ∃ e ∈ past, ∃ i q o wanted known, e.2 = .call i ∧
    e.1.calls[i]? = some (Call.add q o (.inside (.asking wanted known))) ∧
    (q.normalize == p) = true ∧ e.1.Dying q.normalize

theorem Hurries.cons (hurries : Hurries past p) : Hurries ((s, m) :: past) p := by
  obtain ⟨e, he, hasks⟩ := hurries
  exact ⟨e, List.mem_cons_of_mem _ he, hasks⟩

theorem Hurries.congr (hurries : Hurries past p) (hpq : (p == q) = true) : Hurries past q := by
  obtain ⟨e, he, i, r, o, wanted, known, hmove, stage, hr, dying⟩ := hurries
  exact ⟨e, he, i, r, o, wanted, known, hmove, stage, BEq.trans hr hpq, dying⟩

/-- What came before a call that had been made is not changed by what comes later. -/
theorem Precedes.of_cons (precedes : Precedes ((s, m) :: past) i j) (made : j < s.calls.length) :
    Precedes past i j := by
  obtain ⟨e, he, hreturned, hlater⟩ := precedes
  rcases List.mem_cons.mp he with rfl | hold
  · exact absurd made (Nat.not_lt.mpr hlater)
  · exact ⟨e, hold, hreturned, hlater⟩

/-- What a call has returned, it has returned for good. -/
theorem returned_of_past (hs₀ : Reachable s₀) (through : Through kind s₀ past s)
    {e : Interplay × Move} (he : e ∈ past) (hc : e.1.calls[i]? = some c)
    (returned : c.hasReturned = true) : s.calls[i]? = some c := by
  induction through with
  | refl => cases he
  | @step past s t m before allowed fired ih =>
    have hs : Reachable s := hs₀.leads before.leads
    refine call_stays_returned hs.legible fired ?_ returned
    rcases List.mem_cons.mp he with rfl | hold
    · exact hc
    · exact ih hold

/-- A call that has not returned precedes none. -/
theorem not_precedes (hs₀ : Reachable s₀) (through : Through kind s₀ past s)
    (hc : s.calls[i]? = some c) (hopen : c.hasReturned = false) : ¬ Precedes ((s, m) :: past) i k := by
  rintro ⟨e, he, ⟨d, hd, returned⟩, -⟩
  have hsame : s.calls[i]? = some d := by
    rcases List.mem_cons.mp he with rfl | hold
    · exact hd
    · exact returned_of_past hs₀ through hold hd returned
  rw [hc, Option.some.injEq] at hsame
  subst hsame
  rw [hopen] at returned
  cases returned

/-! ## One after the other -/

/-- What the calls in an order were made for. -/
def requests (s : Interplay) (order : List Nat) : List Request :=
  order.filterMap fun i => s.calls[i]?.map Call.request

theorem requests_eq (s : Interplay) (order : List Nat) :
    s.requests order = order.filterMap fun i => (s.calls.map Call.request)[i]? := by
  unfold requests
  simp only [List.getElem?_map]

theorem requests_congr
    (same : ∀ i ∈ order, t.calls[i]?.map Call.request = s.calls[i]?.map Call.request) :
    t.requests order = s.requests order := List.filterMap_congr same

theorem requests_concat (hc : s.calls[i]? = some c) :
    s.requests (order ++ [i]) = s.requests order ++ [c.request] := by
  unfold requests
  rw [List.filterMap_append]
  simp [hc]

/-- While a call goes on, another one removes a path, and succeeds. -/
def Rivalled (past : List (Interplay × Move)) (s : Interplay) (i : Nat) (p : Path) : Prop :=
  ∃ j d q, j ≠ i ∧ s.calls[j]? = some d ∧ d.request = .remove q ∧
    d.standing = .decided (.done (.ok ())) ∧ (q.normalize == p.normalize) = true ∧
    ¬ Precedes past i j ∧ ¬ Precedes past j i

/-- What a call gets is what it gets in turn.  But a removal may share the removal of another call that
goes on at the same time, for which it comes too late in turn. -/
inductive Agrees (past : List (Interplay × Move)) (s : Interplay) (i : Nat) (c : Call) :
    Option Errand.Outcome → Prop
  | same {outcome : Errand.Outcome} (decided : c.standing = .decided outcome) :
    Agrees past s i c (some outcome)
  | shares {p : Path} (request : c.request = .remove p)
    (standing : c.standing = .decided (.done (.ok ())) ∨ ∃ h, c.standing = .seeking h)
    (rival : Rivalled past s i p) :
    Agrees past s i c (some (.done (.error (.notWatched p.normalize))))

/-- An order of calls that keeps to what came before what, and in which each gets in turn what it gets. -/
structure Serial (s₀ : Interplay) (past : List (Interplay × Move)) (s : Interplay)
    (order : List Nat) : Prop where
  nodup : order.Nodup
  made : ∀ i ∈ order, ∃ c, s.calls[i]? = some c ∧ c.standing ≠ .undecided
  inTime : order.Pairwise fun i j => ¬ Precedes past j i
  answers : ∀ {k i : Nat} {c : Call}, order[k]? = some i → s.calls[i]? = some c →
    Agrees past s i c ((s₀.watcher.serveAll (s.requests (order.take k))).serve c.request).1

/-- A call goes on in accordance with what is settled about it. -/
structure Abides (s t : Interplay) : Prop where
  requests : ∀ {i : Nat} {c : Call}, s.calls[i]? = some c →
    ∃ d, t.calls[i]? = some d ∧ d.request = c.request
  standing : ∀ {i : Nat} {c : Call}, s.calls[i]? = some c → c.standing ≠ .undecided →
    ∃ d, t.calls[i]? = some d ∧ (d.standing = c.standing ∨
      (∃ h, c.standing = .seeking h) ∧ d.standing = .decided (.done (.ok ())))

theorem Abides.of_set {c' : Call} (hc : s.calls[i]? = some c) (calls : t.calls = s.calls.set i c')
    (request : c'.request = c.request) (standing : c.standing = .undecided ∨
      (∃ h, c.standing = .seeking h) ∧ c'.standing = .decided (.done (.ok ()))) : s.Abides t := by
  have hself : t.calls[i]? = some c' := by
    rw [calls, List.getElem?_set_self (List.getElem?_eq_some_iff.mp hc).1]
  have hother : ∀ {j d}, i ≠ j → s.calls[j]? = some d → t.calls[j]? = some d := by
    intro j d hij hd
    rw [calls, List.getElem?_set_ne hij]
    exact hd
  refine ⟨fun {j d} hd => ?_, fun {j d} hd hsettled => ?_⟩
  · by_cases hij : i = j
    · subst hij
      rw [hc, Option.some.injEq] at hd
      exact ⟨c', hself, hd ▸ request⟩
    · exact ⟨d, hother hij hd, rfl⟩
  · by_cases hij : i = j
    · subst hij
      rw [hc, Option.some.injEq] at hd
      subst hd
      exact ⟨c', hself, .inr (standing.resolve_left hsettled)⟩
    · exact ⟨d, hother hij hd, .inl rfl⟩

theorem Stride.abides (stride : s.Stride m t) : s.Abides t := by
  cases stride with
  | aside aside =>
    refine ⟨fun hc => ?_, fun hc _ => ?_⟩
    · obtain ⟨d, hd, hrequest, -⟩ := aside.calls hc
      exact ⟨d, hd, hrequest⟩
    · obtain ⟨d, hd, -, hstanding⟩ := aside.calls hc
      exact ⟨d, hd, .inl hstanding⟩
  | asks i p o wanted known _ stage after =>
    subst after
    exact .of_set stage rfl rfl (.inl rfl)
  | looks i p free stage after =>
    subst after
    exact .of_set stage rfl rfl (.inl rfl)
  | drops i p h stage after =>
    subst after
    exact .of_set stage rfl rfl (.inr ⟨⟨h, rfl⟩, rfl⟩)

theorem Abides.requests_eq (abides : s.Abides t) (made : ∀ i ∈ order, (s.calls[i]?).isSome) :
    t.requests order = s.requests order := by
  refine requests_congr fun i hi => ?_
  obtain ⟨c, hc⟩ := Option.isSome_iff_exists.mp (made i hi)
  obtain ⟨d, hd, hrequest⟩ := abides.requests hc
  rw [hc, hd, Option.map_some, Option.map_some, hrequest]

theorem Rivalled.step (abides : s.Abides t) (hc : s.calls[i]? = some c)
    (rival : Rivalled past s i p) : Rivalled ((s, m) :: past) t i p := by
  obtain ⟨j, d, q, ne, hd, removes, succeeds, same, begins, ends⟩ := rival
  obtain ⟨e, he, hrequest⟩ := abides.requests hd
  have hsucceeds : e.standing = .decided (.done (.ok ())) := by
    obtain ⟨e', he', hstanding⟩ := abides.standing hd (by rw [succeeds]; exact nofun)
    rw [he, Option.some.injEq] at he'
    subst he'
    rcases hstanding with hsame | ⟨-, hok⟩
    · exact hsame.trans succeeds
    · exact hok
  have hi := (List.getElem?_eq_some_iff.mp hc).1
  have hj := (List.getElem?_eq_some_iff.mp hd).1
  exact ⟨j, e, q, ne, he, hrequest.trans removes, hsucceeds, same,
    fun hbefore => begins (hbefore.of_cons hj), fun hbefore => ends (hbefore.of_cons hi)⟩

theorem Agrees.step (abides : s.Abides t) {a : Option Errand.Outcome}
    (hc : s.calls[i]? = some c) (hd : t.calls[i]? = some d) (agrees : Agrees past s i c a) :
    Agrees ((s, m) :: past) t i d a := by
  obtain ⟨e, he, hrequest⟩ := abides.requests hc
  rw [hd, Option.some.injEq] at he
  subst he
  have hgoes : c.standing ≠ .undecided → d.standing = c.standing ∨
      (∃ h, c.standing = .seeking h) ∧ d.standing = .decided (.done (.ok ())) := by
    intro hsettled
    obtain ⟨e, he, hstanding⟩ := abides.standing hc hsettled
    rw [hd, Option.some.injEq] at he
    exact he ▸ hstanding
  cases agrees with
  | same decided =>
    have hsettled : c.standing ≠ .undecided := by
      rw [decided]
      exact nofun
    rcases hgoes hsettled with hsame | ⟨⟨h, hseeking⟩, -⟩
    · exact .same (hsame.trans decided)
    · rw [decided] at hseeking
      cases hseeking
  | shares request standing rival =>
    refine .shares (hrequest.trans request) ?_ (rival.step abides hc)
    rcases standing with hdecided | ⟨h, hseeking⟩
    · rcases hgoes (by rw [hdecided]; exact nofun) with hsame | ⟨-, hok⟩
      · exact .inl (hsame.trans hdecided)
      · exact .inl hok
    · rcases hgoes (by rw [hseeking]; exact nofun) with hsame | ⟨-, hok⟩
      · exact .inr ⟨h, hsame.trans hseeking⟩
      · exact .inl hok

namespace Serial

theorem isSome (serial : Serial s₀ past s order) : ∀ i ∈ order, (s.calls[i]?).isSome := by
  intro i hi
  obtain ⟨c, hc, -⟩ := serial.made i hi
  rw [hc]
  rfl

/-- **What is in order stays in order.** -/
theorem step (abides : s.Abides t) (serial : Serial s₀ past s order) :
    Serial s₀ ((s, m) :: past) t order where
  nodup := serial.nodup
  made := by
    intro i hi
    obtain ⟨c, hc, hsettled⟩ := serial.made i hi
    obtain ⟨d, hd, hstanding⟩ := abides.standing hc hsettled
    refine ⟨d, hd, ?_⟩
    rcases hstanding with hsame | ⟨-, hok⟩
    · rw [hsame]
      exact hsettled
    · rw [hok]
      exact nofun
  inTime := by
    refine serial.inTime.imp_of_mem fun {i j} hi _ hnot hbefore => hnot (hbefore.of_cons ?_)
    obtain ⟨c, hc, -⟩ := serial.made i hi
    exact (List.getElem?_eq_some_iff.mp hc).1
  answers := by
    intro k i d hk hd
    obtain ⟨c, hc, -⟩ := serial.made i (List.mem_of_getElem? hk)
    obtain ⟨e, he, hrequest⟩ := abides.requests hc
    rw [hd, Option.some.injEq] at he
    subst he
    rw [abides.requests_eq fun j hj => serial.isSome j (List.mem_of_mem_take hj), hrequest]
    exact (serial.answers hk hc).step abides hc hd

/-- **The next call in the order** is one that has not returned, and gets what it gets in turn. -/
theorem push (serial : Serial s₀ past s order) (hnew : i ∉ order) (hc : s.calls[i]? = some c)
    (settled : c.standing ≠ .undecided) (last : ∀ k, ¬ Precedes past i k)
    (agrees : Agrees past s i c ((s₀.watcher.serveAll (s.requests order)).serve c.request).1) :
    Serial s₀ past s (order ++ [i]) where
  nodup := by
    rw [List.nodup_append]
    refine ⟨serial.nodup, List.nodup_singleton i, ?_⟩
    rintro j hj k hk rfl
    exact hnew (List.mem_singleton.mp hk ▸ hj)
  made := by
    intro j hj
    rcases List.mem_append.mp hj with hold | hself
    · exact serial.made j hold
    · rw [List.mem_singleton.mp hself]
      exact ⟨c, hc, settled⟩
  inTime := by
    rw [List.pairwise_append]
    refine ⟨serial.inTime, List.pairwise_singleton _ _, fun j _ k hk => ?_⟩
    rw [List.mem_singleton.mp hk]
    exact last j
  answers := by
    intro k j d hk hd
    rcases getElem?_concat_cases hk with hold | ⟨rfl, rfl⟩
    · have hlt := (List.getElem?_eq_some_iff.mp hold).1
      rw [List.take_append_of_le_length (Nat.le_of_lt hlt)]
      exact serial.answers hold hd
    · rw [hc, Option.some.injEq] at hd
      subst hd
      rw [List.take_left]
      exact agrees

end Serial

/-! ## The watcher that serves them in turn -/

/-- What a path has stands for what it has when the calls are made in turn: the same watch, for all that
it is registered for in turn.  It may be registered for more only if it was registered in a hurry. -/
structure Tracks (find : Bool → Path → Except Errno Inode) (past : List (Interplay × Move)) (p : Path)
    (u v : Watch) : Prop where
  handle : u.handle = v.handle
  covers : u.flags.Covers v.flags
  leads : ∀ q : Path, (q.normalize == p) = true → find (!u.flags.has Mask.dontFollow) q.normalize
    = find (!v.flags.has Mask.dontFollow) q.normalize
  flags : u.flags = v.flags ∨ Hurries past p

theorem Tracks.refl (u : Watch) : Tracks find past p u u := ⟨rfl, .refl _, fun _ _ => rfl, .inl rfl⟩

theorem Tracks.cons (tracks : Tracks find past p u v) : Tracks find ((s, m) :: past) p u v :=
  ⟨tracks.handle, tracks.covers, tracks.leads, tracks.flags.imp_right .cons⟩

theorem rel_imp {α β : Type} {r r' : α → β → Prop} {a : Option α} {b : Option β}
    (rel : Option.Rel r a b) (imp : ∀ a b, r a b → r' a b) : Option.Rel r' a b := by
  cases rel with
  | none => exact .none
  | some h => exact .some (imp _ _ h)

/-- A quiet watcher has what the paths have. -/
structure Mirrors (find : Bool → Path → Except Errno Inode) (past : List (Interplay × Move))
    (s : Interplay) (w : Watcher) : Prop where
  quiet : w.Quiet find
  roster : w.kernel.notifier.roster = s.notifier.roster
  entries : ∀ p, Option.Rel (Tracks find past p) (s.alive? p) (w.table.entry? p)

namespace Mirrors

theorem absent (mirrors : Mirrors find past s w) (hnone : s.alive? p = none) :
    w.table.entry? p = none := by
  have hrel := mirrors.entries p
  rw [hnone] at hrel
  generalize w.table.entry? p = entry at hrel
  cases hrel
  rfl

theorem present (mirrors : Mirrors find past s w) (hu : s.alive? p = some u) :
    ∃ v, w.table.entry? p = some v ∧ Tracks find past p u v := by
  have hrel := mirrors.entries p
  rw [hu] at hrel
  generalize w.table.entry? p = entry at hrel
  cases hrel with
  | some tracks => exact ⟨_, rfl, tracks⟩

theorem keep (mirrors : Mirrors find past s w) (alive : ∀ p, t.alive? p = s.alive? p)
    (roster : t.notifier.roster = s.notifier.roster) : Mirrors find ((s, m) :: past) t w where
  quiet := mirrors.quiet
  roster := mirrors.roster.trans roster.symm
  entries := by
    intro p
    rw [alive]
    exact rel_imp (mirrors.entries p) fun _ _ tracks => tracks.cons

/-- A path is granted a watch, and has it in turn as well. -/
theorem grant {w' : Watcher} {asked own : Mask} (mirrors : Mirrors find past s w)
    (quiet : w'.Quiet find) (table : w'.table = w.table.insert p ⟨h, own⟩)
    (roster : w'.kernel.notifier.roster = t.notifier.roster)
    (alive : ∀ q, t.alive? q = if p == q then some ⟨h, asked⟩ else s.alive? q)
    (others : ∀ {q u}, s.alive? q = some u → (p == q) ≠ true → u.handle ≠ h)
    (tracks : ∀ {q}, (p == q) = true → Tracks find ((s, m) :: past) q ⟨h, asked⟩ ⟨h, own⟩) :
    Mirrors find ((s, m) :: past) t w' where
  quiet := quiet
  roster := roster
  entries := by
    intro q
    rw [alive, table, mirrors.quiet.paired.entry?_insert]
    by_cases hq : (p == q) = true
    · rw [if_pos hq, if_pos hq]
      exact .some (tracks hq)
    · rw [if_neg hq, if_neg hq]
      -- Another path keeps what it has, for that is under another handle.
      cases hu : s.alive? q with
      | none =>
        rw [mirrors.absent hu]
        exact .none
      | some u =>
        obtain ⟨v, hv, same⟩ := mirrors.present hu
        have hne : v.handle ≠ h := same.handle ▸ others hu hq
        rw [hv, Option.filter_some, if_pos (decide_eq_true hne)]
        exact .some same.cons

/-- A watch is dropped, and is dropped in turn as well. -/
theorem drop {w' : Watcher} (mirrors : Mirrors find past s w) (quiet : w'.Quiet find)
    (table : w'.table = w.table.without [h])
    (roster : w'.kernel.notifier.roster = t.notifier.roster)
    (alive : ∀ q, t.alive? q = (s.alive? q).filter fun u => decide (u.handle ≠ h)) :
    Mirrors find ((s, m) :: past) t w' where
  quiet := quiet
  roster := roster
  entries := by
    intro q
    rw [alive, table, WatchTable.entry?_without]
    cases hu : s.alive? q with
    | none =>
      rw [mirrors.absent hu]
      exact .none
    | some u =>
      obtain ⟨v, hv, tracks⟩ := mirrors.present hu
      rw [hv, Option.filter_some, Option.filter_some, tracks.handle]
      by_cases heq : v.handle = h
      · simp only [heq, ne_eq, not_true_eq_false, decide_false, List.mem_singleton]
        exact .none
      · simp only [heq, ne_eq, not_false_eq_true, decide_true, List.mem_singleton, if_true]
        exact .some tracks.cons

theorem handleOf?_of_present (mirrors : Mirrors find past s w) (hu : s.alive? p = some u) :
    w.table.handleOf? p = some u.handle := by
  obtain ⟨v, hv, tracks⟩ := mirrors.present hu
  exact WatchTable.handleOf?_eq_some_iff.mpr ⟨v, hv, tracks.handle.symm⟩

theorem handleOf?_of_absent (mirrors : Mirrors find past s w) (hnone : s.alive? p = none) :
    w.table.handleOf? p = none := by
  rw [WatchTable.handleOf?, mirrors.absent hnone]
  rfl

end Mirrors

/-! ## A registration -/

/-- The kernel gets the same verdict on what is asked for in turn.  Less may be asked for in turn only if
the path is registered in a hurry. -/
theorem Mirrors.demand (calm : s.Calm find) (mirrors : Mirrors find past s w) {wanted : Mask}
    {known : Bool} (apt : s.Dying p.normalize →
      Holdings.verdict s.watcher.kernel.tree.find p.normalize (armed wanted known) none
        = Holdings.verdict s.watcher.kernel.tree.find p.normalize o.flags none)
    (stage : s.calls[i]? = some (.add p o (.inside (.asking wanted known))))
    (foreseen : s.foreseen = s.table) (demand : s.table.demand p.normalize o.flags = (wanted, known)) :
    ∃ wanted' known', w.table.demand p.normalize o.flags = (wanted', known') ∧
      Holdings.verdict find p.normalize (armed wanted' known') none
        = Holdings.verdict find p.normalize (armed wanted known) none ∧
      wanted.Covers wanted' ∧ (wanted = wanted' ∨ Hurries ((s, .call i) :: past) p.normalize) := by
  unfold WatchTable.demand at demand ⊢
  cases hentry : s.table.entry? p.normalize with
  | none =>
    have hnone : s.alive? p.normalize = none := by
      unfold alive?
      rw [foreseen, hentry]
      rfl
    rw [hentry] at demand
    cases demand
    rw [mirrors.absent hnone]
    exact ⟨_, _, rfl, rfl, .refl _, .inl rfl⟩
  | some u =>
    rw [hentry] at demand
    cases demand
    cases hlive : s.notifier.isLive u.handle with
    | true =>
      obtain ⟨v, hv, tracks⟩ := mirrors.present
        (alive?_eq_some_iff.mpr ⟨foreseen ▸ hentry, hlive⟩)
      rw [hv]
      refine ⟨_, _, rfl, ?_, tracks.covers.or o.flags, ?_⟩
      · -- What is there is widened, and what is asked for then has a meaning.
        have hknown : ∀ flags, (armed flags true).has Mask.known = true := by
          intro flags
          unfold armed
          rw [if_pos rfl, Mask.has_or, Bool.or_eq_true]
          exact .inr (by decide)
        refine Holdings.verdict_congr ((hknown _).trans (hknown _).symm) ?_ none
        rw [has_dontFollow_armed, has_dontFollow_armed, Mask.has_or, Mask.has_or]
        cases o.flags.has Mask.dontFollow with
        | true => rw [Bool.or_true, Bool.or_true]
        | false =>
          rw [Bool.or_false, Bool.or_false]
          exact (tracks.leads p BEq.rfl).symm
      · rcases tracks.flags with hsame | hurries
        · exact .inl (by rw [hsame])
        · exact .inr hurries.cons
    | false =>
      have hdying : s.Dying p.normalize := ⟨u, hentry, hlive⟩
      have hnone : s.alive? p.normalize = none := by
        unfold alive?
        rw [foreseen, hentry, Option.filter_some, hlive]
        rfl
      rw [mirrors.absent hnone]
      refine ⟨_, _, rfl, ?_, ?_, .inr ⟨_, List.mem_cons_self, i, p, o, _, _, rfl, stage, BEq.rfl, hdying⟩⟩
      · rw [calm.tree] at apt
        exact (apt hdying).symm
      · exact Mask.covers_or_right u.flags o.flags

/-! ## What is settled -/

/-- What the call will return is settled; so it is for a removal of a watch that is dead. -/
def Settled (s : Interplay) (i : Nat) : Prop := ∃ c, s.calls[i]? = some c ∧
  ((∃ outcome, c.standing = .decided outcome) ∨
    ∃ h, c.standing = .seeking h ∧ s.notifier.isLive h = false)

theorem Settled.of_decided (hc : s.calls[i]? = some c) {outcome : Errand.Outcome}
    (decided : c.standing = .decided outcome) : s.Settled i := ⟨c, hc, .inl ⟨outcome, decided⟩⟩

theorem settled_congr (hc : s.calls[i]? = some c) (hd : t.calls[i]? = some d)
    (standing : d.standing = c.standing)
    (live : ∀ h, c.standing = .seeking h → t.notifier.isLive h = s.notifier.isLive h) :
    t.Settled i ↔ s.Settled i := by
  have hsame : ∀ h, (c.standing = .seeking h ∧ t.notifier.isLive h = false) ↔
      c.standing = .seeking h ∧ s.notifier.isLive h = false :=
    fun h => and_congr_right fun hseeking => by rw [live h hseeking]
  unfold Settled
  simp only [hc, hd, Option.some.injEq, exists_eq_left', standing, hsame]

theorem not_settled_of_undecided (hc : s.calls[i]? = some c) (standing : c.standing = .undecided) :
    ¬ s.Settled i := by
  rintro ⟨d, hd, ⟨outcome, hdecided⟩ | ⟨h, hseeking, -⟩⟩
  · rw [hc, Option.some.injEq] at hd
    rw [← hd, standing] at hdecided
    cases hdecided
  · rw [hc, Option.some.injEq] at hd
    rw [← hd, standing] at hseeking
    cases hseeking

/-- Nothing is settled about a removal while the watch that it has found is live. -/
theorem not_settled_of_seeking (hc : s.calls[i]? = some c) (standing : c.standing = .seeking h)
    (live : s.notifier.isLive h = true) : ¬ s.Settled i := by
  rintro ⟨d, hd, hsettled⟩
  rw [hc, Option.some.injEq] at hd
  rw [← hd, standing] at hsettled
  rcases hsettled with ⟨outcome, hdecided⟩ | ⟨g, hseeking, hdead⟩
  · cases hdecided
  · cases hseeking
    rw [live] at hdead
    cases hdead

/-- When a call makes a step, nothing is settled about another one, unless a watch is dropped. -/
theorem settled_of_ne {c' : Call} (calls : t.calls = s.calls.set i c') (hij : i ≠ j)
    (live : ∀ q h, s.calls[j]? = some (.remove q (.inside (.found h))) →
      t.notifier.isLive h = s.notifier.isLive h) : t.Settled j ↔ s.Settled j := by
  have hsame : t.calls[j]? = s.calls[j]? := by rw [calls, List.getElem?_set_ne hij]
  cases hc : s.calls[j]? with
  | none =>
    unfold Settled
    simp [hsame, hc]
  | some c =>
    refine settled_congr hc (hsame.trans hc) rfl fun h hseeking => ?_
    obtain ⟨q, rfl⟩ := Call.eq_found_of_standing hseeking
    exact live q h hc

/-- Everything that is settled has its place in the order, and nothing else has. -/
def Complete (s₀ s : Interplay) (order : List Nat) : Prop :=
  ∀ i, i ∈ order ↔ s₀.calls.length ≤ i ∧ s.Settled i

theorem Complete.extend {js : List Nat} (complete : Complete s₀ s order)
    (later : ∀ j ∈ js, s₀.calls.length ≤ j) (settled : ∀ j ∈ js, t.Settled j)
    (others : ∀ j, j ∉ js → (t.Settled j ↔ s.Settled j)) : Complete s₀ t (order ++ js) := by
  intro j
  rw [List.mem_append, complete]
  by_cases hj : j ∈ js
  · exact iff_of_true (.inr hj) ⟨later j hj, settled j hj⟩
  · rw [others j hj]
    exact ⟨fun h => h.resolve_right hj, .inl⟩

theorem Complete.push (complete : Complete s₀ s order) (later : s₀.calls.length ≤ i)
    (settled : t.Settled i) (others : ∀ j, i ≠ j → (t.Settled j ↔ s.Settled j)) :
    Complete s₀ t (order ++ [i]) := by
  refine complete.extend (fun j hj => ?_) (fun j hj => ?_) fun j hj => others j ?_
  · rwa [List.mem_singleton.mp hj]
  · rwa [List.mem_singleton.mp hj]
  · rintro rfl
    exact hj (List.mem_singleton_self i)

theorem Complete.keep (complete : Complete s₀ s order)
    (same : ∀ i, t.Settled i ↔ s.Settled i) : Complete s₀ t order := by
  intro i
  rw [complete, same]

/-! ## One move -/

/-- The calls have an order, and what the paths have is what they have when the calls are made in this
order, one after the other. -/
structure Tallies (find : Bool → Path → Except Errno Inode) (s₀ : Interplay)
    (past : List (Interplay × Move)) (s : Interplay) (order : List Nat) : Prop where
  serial : Serial s₀ past s order
  complete : Complete s₀ s order
  mirrors : Mirrors find past s (s₀.watcher.serveAll (s.requests order))

/-- Nothing new is settled. -/
theorem Tallies.keep (tallies : Tallies find s₀ past s order) (abides : s.Abides t)
    (settled : ∀ i, t.Settled i ↔ s.Settled i) (alive : ∀ p, t.alive? p = s.alive? p)
    (roster : t.notifier.roster = s.notifier.roster) : Tallies find s₀ ((s, m) :: past) t order where
  serial := tallies.serial.step abides
  complete := tallies.complete.keep settled
  mirrors := by
    rw [abides.requests_eq tallies.serial.isSome]
    exact tallies.mirrors.keep alive roster

theorem Tallies.aside (tallies : Tallies find s₀ past s order) (aside : s.Aside t) :
    Tallies find s₀ ((s, m) :: past) t order := by
  refine tallies.keep (Stride.abides (m := m) (.aside aside)) (fun i => ?_) aside.alive? aside.roster
  cases hc : s.calls[i]? with
  | none =>
    have hnone : ¬ s.Settled i := by
      rintro ⟨c, hc', -⟩
      rw [hc] at hc'
      cases hc'
    refine iff_of_false ?_ hnone
    intro hsettled
    obtain ⟨d, hd, -⟩ := id hsettled
    exact not_settled_of_undecided hd (aside.fresh hc hd) hsettled
  | some c =>
    obtain ⟨d, hd, -, hstanding⟩ := aside.calls hc
    exact settled_congr hc hd hstanding fun h _ => Notifier.isLive_congr aside.roster h

/-- A call gets the next place in the order. -/
theorem Tallies.push (tallies : Tallies find s₀ past s order) (abides : s.Abides t)
    (hd : t.calls[i]? = some d) (later : s₀.calls.length ≤ i)
    (last : ∀ k, ¬ Precedes ((s, m) :: past) i k) (unsettled : ¬ s.Settled i)
    (settled : t.Settled i) (others : ∀ j, i ≠ j → (t.Settled j ↔ s.Settled j))
    {answer : Option Errand.Outcome}
    (serves : (s₀.watcher.serveAll (s.requests order)).serve d.request = (answer, w))
    (agrees : Agrees ((s, m) :: past) t i d answer) (mirrors : Mirrors find ((s, m) :: past) t w) :
    Tallies find s₀ ((s, m) :: past) t (order ++ [i]) where
  serial := by
    have hnew : i ∉ order := fun hi => unsettled ((tallies.complete i).mp hi).2
    have hstanding : d.standing ≠ .undecided :=
      fun hundecided => not_settled_of_undecided hd hundecided settled
    refine (tallies.serial.step abides).push hnew hd hstanding last ?_
    rw [abides.requests_eq tallies.serial.isSome, serves]
    exact agrees
  complete := tallies.complete.push later settled others
  mirrors := by
    rw [requests_concat hd, Watcher.serveAll_concat, abides.requests_eq tallies.serial.isSome, serves]
    exact mirrors

/-- Removals of a path that has nothing any more come one after the other. -/
theorem Serial.follow {js : List Nat} (serial : Serial s₀ past t order)
    (serves : s₀.watcher.serveAll (t.requests order) = w) (quiet : w.Quiet find)
    (absent : w.table.handleOf? p.normalize = none) (hd : t.calls[i]? = some d)
    (removes : d.request = .remove p) (succeeds : d.standing = .decided (.done (.ok ())))
    (begins : ∀ k, ¬ Precedes past i k) (nodup : js.Nodup)
    (follows : ∀ j ∈ js, j ∉ order ∧ i ≠ j ∧ (∀ k, ¬ Precedes past j k) ∧
      ∃ q h, t.calls[j]? = some (.remove q (.inside (.found h))) ∧
        (q.normalize == p.normalize) = true) :
    Serial s₀ past t (order ++ js) ∧ s₀.watcher.serveAll (t.requests (order ++ js)) = w := by
  induction js generalizing order with
  | nil =>
    rw [List.append_nil]
    exact ⟨serial, serves⟩
  | cons j rest ih =>
    obtain ⟨hnew, hij, hlast, q, h, hc, hq⟩ := follows j List.mem_cons_self
    obtain ⟨hfirst, hrest⟩ := List.nodup_cons.mp nodup
    have hserve : w.serve (.remove q) = (some (.done (.error (.notWatched q.normalize))), w) := by
      rw [← WatchTable.handleOf?_congr hq] at absent
      rw [Watcher.serve, quiet.remove_of_absent absent]
      rfl
    have hserial : Serial s₀ past t (order ++ [j]) := by
      refine serial.push hnew hc nofun hlast ?_
      rw [serves, Call.request, hserve]
      exact .shares rfl (.inr ⟨h, rfl⟩)
        ⟨i, d, p, hij, hd, removes, succeeds, BEq.symm hq, hlast i, begins j⟩
    have hserves : s₀.watcher.serveAll (t.requests (order ++ [j])) = w := by
      rw [requests_concat hc, Watcher.serveAll_concat, serves, Call.request, hserve]
    rw [List.append_cons]
    refine ih hserial hserves hrest fun k hk => ?_
    obtain ⟨hnew', hkeeps⟩ := follows k (List.mem_cons_of_mem _ hk)
    refine ⟨?_, hkeeps⟩
    rw [List.mem_append, List.mem_singleton]
    rintro (hold | rfl)
    · exact hnew' hold
    · exact hfirst hk

section Moments

variable (hs₀ : Reachable s₀) (returned : s₀.allReturned = true) (through : Through kind s₀ past s)

include hs₀ returned through

/-- A call that has not returned was made on the way. -/
theorem later_of_open (hc : s.calls[i]? = some c) (hopen : c.hasReturned = false) :
    s₀.calls.length ≤ i := by
  by_contra hlt
  have hi : s₀.calls[i]? = some s₀.calls[i] := List.getElem?_eq_getElem (by omega)
  have hreturned := List.all_eq_true.mp returned _ (List.mem_of_getElem? hi)
  have hstays : ∀ {past v}, Through kind s₀ past v → v.calls[i]? = some s₀.calls[i] := by
    intro past v hthrough
    induction hthrough with
    | refl => exact hi
    | step before _ fired ih =>
      exact call_stays_returned (hs₀.leads before.leads).legible fired ih hreturned
  rw [hstays through, Option.some.injEq] at hc
  rw [← hc, hreturned] at hopen
  cases hopen

/-- A registration asks the kernel, and takes its place. -/
theorem Tallies.asks {wanted : Mask} {known : Bool} (hs : Reachable s) (ht : Reachable t)
    (calm : s.Calm find) (busy : s.Busy find names) (distinct : Distinct names)
    (contested : s.Contested names) (tallies : Tallies find s₀ past s order)
    (apt : s.Dying p.normalize →
      Holdings.verdict s.watcher.kernel.tree.find p.normalize (armed wanted known) none
        = Holdings.verdict s.watcher.kernel.tree.find p.normalize o.flags none)
    (stage : s.calls[i]? = some (.add p o (.inside (.asking wanted known))))
    (after : t = (s.withWatcher { s.watcher with
      kernel := (s.watcher.arm p.normalize (armed wanted known)).2 }).put i
        (.add p o (.inside (.told wanted (s.watcher.arm p.normalize (armed wanted known)).1)))) :
    t.Contested names ∧ Tallies find s₀ ((s, .call i) :: past) t (order ++ [i]) := by
  have abides : s.Abides t := Stride.abides (.asks i p o wanted known rfl stage after)
  have hforeseen : s.foreseen = s.table := foreseen_of_holdsTable hs stage rfl rfl
  have hlater := later_of_open hs₀ returned through stage rfl
  have hlast : ∀ k, ¬ Precedes ((s, .call i) :: past) i k := fun k => not_precedes hs₀ through stage rfl
  have hunsettled := not_settled_of_undecided stage rfl
  obtain ⟨w, hw⟩ : ∃ w, s₀.watcher.serveAll (s.requests order) = w := ⟨_, rfl⟩
  have mirrors := tallies.mirrors
  rw [hw] at mirrors
  obtain ⟨wanted', known', hdemand, hverdict, hcovers, hflags⟩ :=
    mirrors.demand calm apt stage hforeseen (hs.asks.asking stage)
  have hself : ∀ {d}, t.calls = s.calls.set i d → t.calls[i]? = some d := fun hcalls => by
    rw [hcalls, List.getElem?_set_self (List.getElem?_eq_some_iff.mp stage).1]
  have hverdicts : Holdings.verdict s.watcher.kernel.tree.find p.normalize (armed wanted' known') none
      = Holdings.verdict s.watcher.kernel.tree.find p.normalize (armed wanted known) none := by
    rw [calm.tree]
    exact hverdict
  rcases Watcher.arm_congr calm.atWork.isOpen mirrors.quiet.atWork.isOpen
    (mirrors.quiet.tree.trans calm.tree.symm) mirrors.roster hverdicts
    with ⟨f, hrefused, hrefused'⟩ | ⟨inode, h, hleads, hgranted, harm, harm'⟩
  · obtain ⟨hsame, hnotifier, hcalls⟩ := asks_of_error stage after hrefused
    obtain ⟨contested', halive⟩ := contested.refused stage hcalls hsame hnotifier
    have hserve : w.serve (.add p o) = (some (.done (.error f)), w) := by
      rw [Watcher.serve, mirrors.quiet.add_of_error hdemand hrefused']
    refine ⟨contested', tallies.push abides (hself hcalls) hlater hlast hunsettled
      (.of_decided (hself hcalls) rfl) (fun j hij => settled_of_ne hcalls hij fun _ _ _ => ?_)
      (by rw [hw]; exact hserve) (.same rfl) (mirrors.keep halive (by rw [hnotifier]))⟩
    rw [hnotifier]
  · obtain ⟨hsame, hnotifier, hcalls⟩ := asks_of_ok stage after hs ht harm
    rw [calm.tree] at hleads
    have hfind := Holdings.find_of_verdict hleads
    have hfind' := Holdings.find_of_verdict (hverdict.trans hleads)
    rw [has_dontFollow_armed] at hfind hfind'
    have hname : names p.normalize = some inode :=
      busy _ (List.mem_of_getElem? stage) rfl _ _ hfind
    have halive := alive?_of_grant distinct hs contested hname hgranted hsame hnotifier
    obtain ⟨hgrant, hroster⟩ :=
      Notifier.grant_congr mirrors.roster inode (armed wanted' known') (armed wanted known)
    have hserve : w.serve (.add p o) = (some (.done (.ok ())), (w.add p o).2) := by
      rw [Watcher.serve, mirrors.quiet.add_of_ok hdemand harm']
    refine ⟨contested.granted distinct hs calm.atWork.isOpen stage hname hgranted hcalls hsame hnotifier,
      tallies.push abides (hself hcalls) hlater hlast hunsettled (.of_decided (hself hcalls) rfl)
        (fun j hij => settled_of_ne hcalls hij fun q g hfound => ?_)
        (by rw [hw]; exact hserve) (.same rfl) ?_⟩
    · rw [hnotifier]
      exact isLive_of_found hs calm.atWork.isOpen hgranted hfound
    · rw [mirrors.quiet.add_of_ok hdemand harm']
      refine mirrors.grant (mirrors.quiet.of_grant (hgrant.trans hgranted)) rfl ?_ halive
        (handle_ne_of_grant distinct hs contested hname hgranted) fun {q} hq => ?_
      · rw [hnotifier]
        exact hroster
      · refine ⟨rfl, hcovers, fun r hr => ?_, hflags.imp_right fun hurries => hurries.congr hq⟩
        have hpath : r.normalize = p.normalize :=
          (r.isNormal_normalize).eq_of_beq p.isNormal_normalize (BEq.trans hr (BEq.symm hq))
        rw [hpath, hfind, hfind']

/-- A removal that finds nothing takes its place, and changes nothing. -/
theorem Tallies.late (tallies : Tallies find s₀ past s order)
    (stage : s.calls[i]? = some (.remove p (.inside .admitted))) (request : c.request = .remove p)
    (abides : s.Abides (s.put i c)) (alive : ∀ q, (s.put i c).alive? q = s.alive? q)
    (absent : s.alive? p.normalize = none) (settled : (s.put i c).Settled i)
    (agrees : Agrees ((s, m) :: past) (s.put i c) i c
      (some (.done (.error (.notWatched p.normalize))))) :
    Tallies find s₀ ((s, m) :: past) (s.put i c) (order ++ [i]) := by
  have mirrors := tallies.mirrors
  have hserve : (s₀.watcher.serveAll (s.requests order)).serve c.request
      = (some (.done (.error (.notWatched p.normalize))),
        s₀.watcher.serveAll (s.requests order)) := by
    rw [request, Watcher.serve,
      mirrors.quiet.remove_of_absent (mirrors.handleOf?_of_absent absent)]
    rfl
  exact tallies.push abides (List.getElem?_set_self (List.getElem?_eq_some_iff.mp stage).1)
    (later_of_open hs₀ returned through stage rfl) (fun _ => not_precedes hs₀ through stage rfl)
    (not_settled_of_undecided stage rfl) settled
    (fun _ hij => settled_of_ne rfl hij fun _ _ _ => rfl) hserve agrees (mirrors.keep alive rfl)

/-- A removal looks its path up.  If there is nothing, or nothing any more, it takes its place. -/
theorem Tallies.looks (contested : s.Contested names) (tallies : Tallies find s₀ past s order)
    (free : s.tableFree = true) (stage : s.calls[i]? = some (.remove p (.inside .admitted)))
    (result : c = .remove p (match s.table.handleOf? p.normalize with
      | none => .returned (.error (.notWatched p.normalize))
      | some h => .inside (.found h))) :
    ∃ order', Tallies find s₀ ((s, m) :: past) (s.put i c) order' := by
  have abides : s.Abides (s.put i c) :=
    Stride.abides (m := m) (.looks i p free stage (congrArg (s.put i) result))
  have halive : ∀ q, (s.put i c).alive? q = s.alive? q := alive?_of_looks free result
  have hforeseen := foreseen_of_tableFree free
  have hself : (s.put i c).calls[i]? = some c :=
    List.getElem?_set_self (List.getElem?_eq_some_iff.mp stage).1
  have hrequest : c.request = .remove p := by
    rw [result]
    rfl
  cases hhandle : s.table.handleOf? p.normalize with
  | none =>
    rw [hhandle] at result
    have hnone : s.alive? p.normalize = none := by
      unfold alive?
      rw [hforeseen, Option.map_eq_none_iff.mp hhandle]
      rfl
    have hstanding : c.standing = .decided (.done (.error (.notWatched p.normalize))) := by
      rw [result]
      rfl
    exact ⟨_, tallies.late hs₀ returned through stage hrequest abides halive hnone
      (.of_decided hself hstanding) (.same hstanding)⟩
  | some h =>
    rw [hhandle] at result
    have hstanding : c.standing = .seeking h := by
      rw [result]
      rfl
    obtain ⟨u, hu, rfl⟩ := WatchTable.handleOf?_eq_some_iff.mp hhandle
    rw [← hforeseen] at hu
    cases hlive : s.notifier.isLive u.handle with
    | true =>
      refine ⟨_, tallies.keep abides (fun j => ?_) halive rfl⟩
      by_cases hij : i = j
      · subst hij
        exact iff_of_false (not_settled_of_seeking hself hstanding hlive)
          (not_settled_of_undecided stage rfl)
      · exact settled_of_ne rfl hij fun _ _ _ => rfl
    | false =>
      -- Somebody else removes the path at the same time.
      obtain ⟨j, q, hwaits, hq⟩ := contested.waited hu hlive
      have hnone : s.alive? p.normalize = none := by
        unfold alive?
        rw [hu, Option.filter_some, hlive]
        rfl
      have hij : i ≠ j := by
        rintro rfl
        rw [stage] at hwaits
        cases hwaits
      have hother : (s.put i c).calls[j]? = some (.remove q (.inside (.waiting u.handle))) :=
        (List.getElem?_set_ne hij).trans hwaits
      have hrival : Rivalled ((s, m) :: past) (s.put i c) i p :=
        ⟨j, _, q, Ne.symm hij, hother, rfl, rfl, hq, not_precedes hs₀ through stage rfl,
          not_precedes hs₀ through hwaits rfl⟩
      exact ⟨_, tallies.late hs₀ returned through stage hrequest abides halive hnone
        ⟨c, hself, .inr ⟨_, hstanding, hlive⟩⟩ (.shares hrequest (.inr ⟨_, hstanding⟩) hrival)⟩

end Moments

/-! ## A removal that has a watch dropped -/

/-- A removal has found this watch, and has not had it dropped. -/
def Seeks (s : Interplay) (h : Handle) (i : Nat) : Prop :=
  ∃ p, s.calls[i]? = some (.remove p (.inside (.found h)))

section Drops

variable (stage : s.calls[i]? = some (.remove p (.inside (.found h))))
  (after : t = (s.withWatcher { s.watcher with kernel := (s.watcher.kernel.unwatch h).2 }).put i
    (.remove p (.inside (.waiting h))))

include after in
theorem stays_of_drops (hij : i ≠ j) (hc : s.calls[j]? = some c) : t.calls[j]? = some c := by
  rw [after]
  exact (List.getElem?_set_ne hij).trans hc

include stage

theorem exists_seekers : ∃ js : List Nat, (i :: js).Nodup ∧ ∀ j, j ∈ i :: js ↔ s.Seeks h j := by
  classical
  refine ⟨(List.range s.calls.length).filter fun j => decide (i ≠ j ∧ s.Seeks h j), ?_, fun j => ?_⟩
  · refine List.nodup_cons.mpr ⟨?_, List.nodup_range.filter _⟩
    simp
  · rw [List.mem_cons, List.mem_filter, List.mem_range, decide_eq_true_eq]
    constructor
    · rintro (rfl | ⟨-, -, seeks⟩)
      · exact ⟨p, stage⟩
      · exact seeks
    · intro seeks
      by_cases hij : i = j
      · exact .inl hij.symm
      · obtain ⟨q, hc⟩ := id seeks
        exact .inr ⟨(List.getElem?_eq_some_iff.mp hc).1, hij, seeks⟩

include after

theorem waits_of_drops : t.calls[i]? = some (.remove p (.inside (.waiting h))) := by
  rw [after]
  exact List.getElem?_set_self (List.getElem?_eq_some_iff.mp stage).1

/-- With the watch dropped, all is settled about the removals that have found it. -/
theorem settled_of_drops (seeks : s.Seeks h j) : t.Settled j := by
  obtain ⟨q, hc⟩ := seeks
  by_cases hij : i = j
  · subst hij
    exact .of_decided (waits_of_drops stage after) rfl
  · refine ⟨_, stays_of_drops after hij hc, .inr ⟨h, rfl, ?_⟩⟩
    rw [notifier_of_drops after, Notifier.isLive_revoke]
    simp

theorem settled_of_drops_iff (other : ¬ s.Seeks h j) : t.Settled j ↔ s.Settled j := by
  have hcalls : t.calls = s.calls.set i (.remove p (.inside (.waiting h))) := by
    rw [after]
    rfl
  have hij : i ≠ j := by
    rintro rfl
    exact other ⟨p, stage⟩
  refine settled_of_ne hcalls hij fun q g hg => ?_
  have hne : g ≠ h := by
    rintro rfl
    exact other ⟨q, hg⟩
  rw [notifier_of_drops after, Notifier.isLive_revoke, decide_eq_true hne, Bool.and_true]

/-- Somebody else has had the watch dropped, and the removal has its place already. -/
theorem Tallies.drops_dead (tallies : Tallies find s₀ past s order)
    (dead : s.notifier.isLive h = false) : Tallies find s₀ ((s, m) :: past) t order := by
  have hsame : t.notifier = s.notifier := by
    rw [notifier_of_drops after, Notifier.revoke, dead]
    rfl
  refine tallies.keep (Stride.abides (m := m) (.drops i p h stage after)) (fun j => ?_) (fun q => ?_)
    (by rw [hsame])
  · by_cases seeks : s.Seeks h j
    · obtain ⟨q, hc⟩ := id seeks
      exact iff_of_true (settled_of_drops stage after seeks) ⟨_, hc, .inr ⟨h, rfl, dead⟩⟩
    · exact settled_of_drops_iff stage after seeks
  · unfold alive?
    rw [hsame, foreseen_of_drops stage after]

/-- A removal has a live watch dropped and takes its place.  The other removals that have found the same
watch come right after it. -/
theorem Tallies.drops_live (hs₀ : Reachable s₀) (returned : s₀.allReturned = true)
    (through : Through kind s₀ past s) (hs : Reachable s) (contested : s.Contested names)
    (tallies : Tallies find s₀ past s order) (live : s.notifier.isLive h = true) :
    ∃ order', Tallies find s₀ ((s, m) :: past) t order' := by
  have abides : s.Abides t := Stride.abides (m := m) (.drops i p h stage after)
  have hself := waits_of_drops stage after
  have hlast : ∀ {j}, s.Seeks h j → ∀ k, ¬ Precedes ((s, m) :: past) j k :=
    fun ⟨_, hc⟩ _ => not_precedes hs₀ through hc rfl
  have hold : ∀ {j}, s.Seeks h j → j ∉ order := fun {j} ⟨_, hc⟩ hj =>
    not_settled_of_seeking hc rfl live ((tallies.complete j).mp hj).2
  obtain ⟨w, hw⟩ : ∃ w, s₀.watcher.serveAll (s.requests order) = w := ⟨_, rfl⟩
  have mirrors := tallies.mirrors
  rw [hw] at mirrors
  obtain ⟨u, hu, hhandle⟩ := contested.found stage live
  have hfound : w.table.handleOf? p.normalize = some h := hhandle ▸ mirrors.handleOf?_of_present hu
  obtain ⟨hanswer, hquiet, htable, hroster⟩ := mirrors.quiet.remove_of_found hfound
    ((Notifier.isLive_congr mirrors.roster h).trans live)
  have hserve : w.serve (.remove p) = (some (.done (.ok ())), (w.remove p).2) := by
    rw [Watcher.serve, hanswer]
    rfl
  -- The removal comes first.
  have hrequests := abides.requests_eq tallies.serial.isSome
  have hserial : Serial s₀ ((s, m) :: past) t (order ++ [i]) := by
    refine (tallies.serial.step abides).push (hold ⟨p, stage⟩) hself ?_ (hlast ⟨p, stage⟩) ?_
    · rintro ⟨⟩
    · rw [hrequests, hw, Call.request, hserve]
      exact .same rfl
  have hserves : s₀.watcher.serveAll (t.requests (order ++ [i])) = (w.remove p).2 := by
    rw [requests_concat hself, Watcher.serveAll_concat, hrequests, hw, Call.request, hserve]
  have habsent : (w.remove p).2.table.handleOf? p.normalize = none := by
    rw [htable, WatchTable.handleOf?_without, hfound]
    simp
  -- Then come those that have found the same.
  obtain ⟨js, hnodup, hjs⟩ := exists_seekers stage
  obtain ⟨hfirst, hrest⟩ := List.nodup_cons.mp hnodup
  obtain ⟨hserial', hserves'⟩ := hserial.follow hserves hquiet habsent hself rfl rfl
    (hlast ⟨p, stage⟩) hrest fun j hj => by
      have hseeks := (hjs j).mp (List.mem_cons_of_mem i hj)
      have hij : i ≠ j := by
        rintro rfl
        exact hfirst hj
      obtain ⟨q, hc⟩ := id hseeks
      refine ⟨?_, hij, hlast hseeks, q, h, stays_of_drops after hij hc, ?_⟩
      · rw [List.mem_append, List.mem_singleton]
        rintro (hj' | rfl)
        · exact hold hseeks hj'
        · exact hij rfl
      · obtain ⟨v, hv, hhandle'⟩ := contested.found hc live
        exact (paired_foreseen hs.ordered).beq_of_handle_eq (alive?_eq_some_iff.mp hv).1
          (alive?_eq_some_iff.mp hu).1 (hhandle'.trans hhandle.symm)
  rw [← List.append_cons] at hserial' hserves'
  refine ⟨order ++ i :: js, hserial', tallies.complete.extend (fun j hj => ?_)
    (fun j hj => settled_of_drops stage after ((hjs j).mp hj))
    (fun j hj => settled_of_drops_iff stage after fun seeks => hj ((hjs j).mpr seeks)), ?_⟩
  · obtain ⟨q, hc⟩ := (hjs j).mp hj
    exact later_of_open hs₀ returned through hc rfl
  · rw [hserves']
    refine mirrors.drop hquiet htable ?_
      (alive?_of_drops (foreseen_of_drops stage after) (notifier_of_drops after))
    rw [hroster, notifier_of_drops after, Notifier.roster_revoke, Notifier.roster_revoke, mirrors.roster]

end Drops

end Interplay

end FileWatch
