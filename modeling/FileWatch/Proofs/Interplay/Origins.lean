import FileWatch.Proofs.Interplay.Ending

/-!
# Where a handle comes from

A call gets hold of a handle in one of three ways: the kernel grants it to a registration, a removal
finds it in the table, or a removal that has found it has the kernel drop it.  For each stage with a
handle there is one step that leads to it (`told_of_fire`, `found_of_fire`, `waiting_of_fire`).

So every handle that anybody has to do with was given out by the kernel (`Known`), and a handle that
is given out for the first time is one that nobody has to do with.

Whoever holds the table holds it alone (`Reachable.alone`).
-/

namespace FileWatch

namespace Interplay

variable {s t : Interplay} {m : Move} {i j : Nat} {p : Path} {o : WatchOptions} {wanted : Mask}
  {h : Handle}

/-! ## Calls that have a handle -/

/-- The handle that a call has got hold of and goes on with. -/
def Call.handle? : Call → Option Handle
  | .add _ _ (.inside (.told _ (.ok h))) => some h
  | .remove _ (.inside (.found h)) => some h
  | .remove _ (.inside (.waiting h)) => some h
  | _ => none

/-- The kernel has granted a handle to a registration that asked. -/
theorem told_of_fire (hfire : s.fire m = some t)
    (stage : t.calls[i]? = some (.add p o (.inside (.told wanted (.ok h))))) :
    s.calls[i]? = some (.add p o (.inside (.told wanted (.ok h)))) ∨
      ∃ known inode flags, m = .call i ∧
        s.calls[i]? = some (.add p o (.inside (.asking wanted known))) ∧
        s.descriptorOpen = true ∧ (s.notifier.grant inode flags).1 = .ok h ∧
        t.core = { s.core with notifier := (s.notifier.grant inode flags).2 } := by
  rcases call_of_fire hfire stage with hsame | ⟨-, fresh⟩ | ⟨d, u, hd, step, rfl⟩
  · exact .inl hsame
  · cases fresh
  · cases step with
    | addKnocks knock => cases Progress.entry_of_knock knock
    | addAsks answer =>
      rename_i known kernel
      rcases s.watcher.arm_cases p.normalize (armed wanted known)
        with ⟨f, harm⟩ | ⟨inode, g, -, hopen, -, -, hgrant, harm⟩
      · cases harm.symm.trans answer
      · cases harm.symm.trans answer
        exact .inr ⟨known, inode, _, rfl, hd, hopen, hgrant, rfl⟩

/-- A removal has found a handle in the table, while nobody held it. -/
theorem found_of_fire (hfire : s.fire m = some t)
    (stage : t.calls[i]? = some (.remove p (.inside (.found h)))) :
    s.calls[i]? = some (.remove p (.inside (.found h))) ∨
      s.tableFree = true ∧ s.table.handleOf? p.normalize = some h := by
  rcases call_of_fire hfire stage with hsame | ⟨-, fresh⟩ | ⟨d, u, hd, step, rfl⟩
  · exact .inl hsame
  · cases fresh
  · cases step with
    | removeKnocks knock => cases Progress.entry_of_knock knock
    | removeFinds free found => exact .inr ⟨free, found⟩

/-- A removal has had the kernel drop the watch that it had found. -/
theorem waiting_of_fire (hfire : s.fire m = some t)
    (stage : t.calls[i]? = some (.remove p (.inside (.waiting h)))) :
    s.calls[i]? = some (.remove p (.inside (.waiting h))) ∨
      s.calls[i]? = some (.remove p (.inside (.found h))) ∧
        t.core = { s.core with notifier := (s.notifier.revoke h).2 } := by
  rcases call_of_fire hfire stage with hsame | ⟨-, fresh⟩ | ⟨d, u, hd, step, rfl⟩
  · exact .inl hsame
  · cases fresh
  · cases step with
    | removeKnocks knock => cases Progress.entry_of_knock knock
    | removeAsks => exact .inr ⟨hd, rfl⟩
    | removeSleeps => exact .inl hd

/-! ## Handles were given out -/

theorem exists_stage_of_mem_held (hh : h ∈ s.held) :
    ∃ (i : Nat) (p : Path) (o : WatchOptions) (wanted : Mask),
      s.calls[i]? = some (.add p o (.inside (.told wanted (.ok h)))) := by
  obtain ⟨c, hc, hheld⟩ := List.mem_filterMap.mp hh
  obtain ⟨i, hi⟩ := List.mem_iff_getElem?.mp hc
  unfold Call.held? at hheld
  split at hheld
  · cases hheld
    exact ⟨i, _, _, _, hi⟩
  · cases hheld

/-- While the descriptor is open, a handle that was given out stays one. -/
theorem issued_of_effect (heffect : s.Effect m t) (isOpen : t.descriptorOpen = true)
    (issued : s.notifier.Issued h) : t.notifier.Issued h := by
  cases heffect.notifier with
  | still notifier | read _ _ _ notifier =>
    rw [notifier]
    exact issued
  | grant inode flags g _ granted notifier =>
    rw [notifier]
    exact issued.grant granted
  | post r _ notifier =>
    obtain ⟨k, hk, hh⟩ := issued
    rw [notifier]
    exact ⟨k, (Notifier.granted_post r).symm ▸ hk, hh⟩
  | revoke g notifier =>
    obtain ⟨k, hk, hh⟩ := issued
    rw [notifier]
    exact ⟨k, (Notifier.granted_revoke g).symm ▸ hk, hh⟩
  | release _ closed =>
    rw [isOpen] at closed
    cases closed

/-- Every handle that a call, the table or a record has was given out. -/
structure Known (s : Interplay) : Prop where
  calls : ∀ {i : Nat} {c : Call} {h : Handle}, s.calls[i]? = some c → c.handle? = some h →
    s.notifier.Issued h
  table : ∀ {h : Handle} {p : Path}, s.table.resolve? h = some p → s.notifier.Issued h
  pending : ∀ r ∈ s.pending, r = Notifier.lost ∨ s.notifier.Issued r.handle

theorem Known.of_fire (legible : s.Legible) (ordered : s.Ordered)
    (known : s.Known) (hfire : s.fire m = some t) (isOpen : t.descriptorOpen = true) : t.Known := by
  have heffect := (effect_of_fire legible hfire).1
  have hstays : ∀ {g}, s.notifier.Issued g → t.notifier.Issued g :=
    fun hissued => issued_of_effect heffect isOpen hissued
  constructor
  · intro i c h hcall hhandle
    unfold Call.handle? at hhandle
    split at hhandle
    · cases hhandle
      rcases told_of_fire hfire hcall with hsame | ⟨-, inode, flags, -, -, -, granted, core⟩
      · exact hstays (known.calls hsame rfl)
      · have hnotifier : t.notifier = (s.notifier.grant inode flags).2 := congrArg Core.notifier core
        rw [hnotifier]
        refine (ordered.sound.grant granted).issued_of_isLive ?_
        rw [Notifier.isLive_grant granted]
        simp
    · cases hhandle
      rcases found_of_fire hfire hcall with hsame | ⟨-, hhandle⟩
      · exact hstays (known.calls hsame rfl)
      · obtain ⟨q, hq, -⟩ := WatchTable.owns_iff.mp ((ordered.paired _ _).mpr hhandle)
        exact hstays (known.table hq)
    · cases hhandle
      rcases waiting_of_fire hfire hcall with hsame | ⟨hfound, -⟩
      · exact hstays (known.calls hsame rfl)
      · exact hstays (known.calls hfound rfl)
    · cases hhandle
  · -- What is new in the table was held by a registration, and that one's handle was given out.
    intro h p hresolve
    refine hstays (Classical.byContradiction fun hnew => ?_)
    have hnot : h ∉ s.held := by
      intro hh
      obtain ⟨i, q, o, wanted, stage⟩ := exists_stage_of_mem_held hh
      exact hnew (known.calls stage rfl)
    have hnone : s.table.resolve? h = none := by
      cases hbefore : s.table.resolve? h with
      | none => rfl
      | some q => exact absurd (known.table hbefore) hnew
    rw [resolve?_of_notHeld ordered hfire hnot hnone] at hresolve
    cases hresolve
  · intro r hr
    rcases pending_of_effect heffect with hsub | ⟨q, x, live, hx, -, -, -, hadd⟩
    · exact (known.pending r (hsub.subset hr)).imp_right hstays
    · rw [hadd, List.mem_append, List.mem_singleton] at hr
      rcases hr with hr | rfl
      · exact (known.pending r hr).imp_right hstays
      · rcases hx with rfl | rfl
        · exact .inr (hstays (ordered.sound.issued_of_isLive live))
        · exact .inl rfl

theorem Reachable.known (hs : Reachable s) (isOpen : s.descriptorOpen = true) : s.Known := by
  obtain ⟨settings, tree, limit, hstart⟩ := hs
  induction hstart with
  | refl =>
    constructor
    · intro i c h hcall
      cases hcall
    · intro h p hresolve
      cases hresolve
    · intro r hr
      cases hr
  | @step v t m before _ fired ih =>
    have hv : Reachable v := ⟨settings, tree, limit, before⟩
    have heffect := (effect_of_fire hv.legible fired).1
    exact Known.of_fire hv.legible hv.ordered (ih ((onward_of_effect heffect).descriptorOpen isOpen))
      fired isOpen

/-- What a removal waits for is dead: it was the removal that had it dropped. -/
theorem spent_of_waiting (hs : Reachable s)
    (stage : s.calls[i]? = some (.remove p (.inside (.waiting h)))) : s.Spent h := by
  obtain ⟨settings, tree, limit, hstart⟩ := hs
  induction hstart with
  | refl => cases stage
  | @step v t m before _ fired ih =>
    have hv : Reachable v := ⟨settings, tree, limit, before⟩
    have heffect := (effect_of_fire hv.legible fired).1
    rcases waiting_of_fire fired stage with hsame | ⟨hfound, core⟩
    · exact (ih hsame).of_effect hv.ordered heffect
    · constructor
      · have hnotifier : t.notifier = (v.notifier.revoke h).2 := congrArg Core.notifier core
        rw [hnotifier, Notifier.isLive_revoke]
        simp
      · intro hopen
        have known := hv.known ((onward_of_effect heffect).descriptorOpen hopen)
        exact issued_of_effect heffect hopen (known.calls hfound rfl)

/-! ## How a watch ends -/

/-- A watch that is live stays live, unless the descriptor is closed, or the kernel drops it: its thing
is gone, a removal has found it, or the reader was told that its thing has moved. -/
theorem live_or_dropped (heffect : s.Effect m t) (live : s.notifier.isLive h = true) :
    t.notifier.isLive h = true ∨ t.descriptorOpen = false ∨
      t.notifier = (s.notifier.revoke h).2 ∧
        (m = .death h ∨
          (∃ i p, m = .call i ∧ s.calls[i]? = some (Call.remove p (.inside (.found h)))) ∨
          ∃ r ∈ s.pending, r.handle = h ∧ (r.mask.has Mask.moveSelf && r.name.isNone) = true) := by
  have hsame : t.notifier.watches = s.notifier.watches → t.notifier.isLive h = true := by
    intro hwatches
    rw [Notifier.isLive, hwatches]
    exact live
  cases heffect with
  | revoke g by_whom core =>
    have hnotifier : t.notifier = (s.notifier.revoke g).2 := congrArg Core.notifier core
    by_cases hg : h = g
    · subst hg
      refine .inr (.inr ⟨hnotifier, by_whom.imp_right (Or.imp_right ?_)⟩)
      rintro ⟨r, -, hand, hr, hmoved⟩
      exact ⟨r, mem_pending hand rfl, hr, hmoved⟩
    · left
      rw [hnotifier, Notifier.isLive_revoke, live]
      simpa using hg
  | release _ core => exact .inr (.inl (congrArg Core.descriptorOpen core))
  | grant j inode flags g _ _ granted core =>
    have hnotifier : t.notifier = (s.notifier.grant inode flags).2 := congrArg Core.notifier core
    left
    rw [hnotifier, Notifier.isLive_grant granted, live]
    rfl
  | post r _ _ _ _ core =>
    have hnotifier : t.notifier = s.notifier.post r := congrArg Core.notifier core
    exact .inl (hsame (by rw [hnotifier, Notifier.watches_post]))
  | read rs left _ _ _ core =>
    exact .inl (hsame (congrArg (fun c : Core => c.notifier.watches) core))
  | done r _ _ _ core =>
    exact .inl (hsame (congrArg (fun c : Core => c.notifier.watches) core).symm)
  | still core | purge r _ _ _ _ _ _ _ core | giveUp _ core | store _ _ _ _ _ _ _ core
  | forced _ _ _ _ _ core | disk _ _ core | announce _ _ core | stop _ core | clear _ _ _ core
  | shut _ _ _ _ core =>
    exact .inl (hsame (congrArg (fun c : Core => c.notifier.watches) core))

/-! ## Who holds the table -/

/-- A call that begins to hold the table finds that nobody does. -/
theorem holdsTable_of_fire (hfire : s.fire m = some t) {c : Call} (stage : t.calls[i]? = some c)
    (holds : c.holdsTable = true) : (∃ d, s.calls[i]? = some d ∧ d.holdsTable = true) ∨
      m.caller? = some i ∧ s.tableFree = true := by
  rcases call_of_fire hfire stage with hsame | ⟨-, fresh⟩ | ⟨d, u, hd, step, -⟩
  · exact .inl ⟨c, hsame, holds⟩
  · unfold Call.holdsTable at holds
    split at holds <;> first | cases fresh | cases holds
  · cases step with
    | addKnocks knock =>
      obtain ⟨-, -, rfl⟩ | ⟨-, -, -, rfl⟩ | ⟨-, rfl⟩ := Progress.knock_cases knock
      all_goals cases holds
    | addLooks free => exact .inr ⟨rfl, free⟩
    | addAsks | addRefused => exact .inl ⟨_, hd, rfl⟩
    | _ => cases holds

theorem not_holdsTable (free : s.tableFree = true) {c : Call} (hcall : s.calls[i]? = some c) :
    c.holdsTable = false := by
  simpa using List.all_eq_true.mp free c (List.mem_of_getElem? hcall)

/-- Whoever holds the table holds it alone. -/
theorem Reachable.alone (hs : Reachable s) {c d : Call} (hc : s.calls[i]? = some c)
    (hd : s.calls[j]? = some d) (holds : c.holdsTable = true) (holds' : d.holdsTable = true) :
    i = j := by
  obtain ⟨settings, tree, limit, hstart⟩ := hs
  induction hstart generalizing i j c d with
  | refl => cases hc
  | @step v t m before _ fired ih =>
    rcases holdsTable_of_fire fired hc holds with ⟨c', hc', hholds⟩ | ⟨hi, free⟩
    · rcases holdsTable_of_fire fired hd holds' with ⟨d', hd', hholds'⟩ | ⟨-, free⟩
      · exact ih hc' hd' hholds hholds'
      · rw [not_holdsTable free hc'] at hholds
        cases hholds
    · rcases holdsTable_of_fire fired hd holds' with ⟨d', hd', hholds'⟩ | ⟨hj, -⟩
      · rw [not_holdsTable free hd'] at hholds'
        cases hholds'
      · exact Option.some.inj (hi.symm.trans hj)

end Interplay

end FileWatch
