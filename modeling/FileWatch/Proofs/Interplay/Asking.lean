import FileWatch.Proofs.Interplay.Origins
import FileWatch.Proofs.Mask

/-!
# What a registration asks for

A registration looks up what to ask the kernel for, asks, and stores the answer, and holds the table all
the while.  Nobody else changes the table as long as it does (`table_of_holdsTable`).  So what it has
looked up is still true when it asks, and when it stores (`Reachable.asks`): a stored entry has what the
entry before it had, and what the registration wants besides.

A path comes into the table by a registration only, and an entry that no registration touches stays as
it is, until it goes (`stored_or_kept`).
-/

namespace FileWatch

namespace Interplay

variable {s t : Interplay} {m : Move} {i j : Nat} {p : Path} {o : WatchOptions}
  {wanted : Mask} {known : Bool} {h : Handle} {w : Watch}

/-! ## Who holds the table keeps it as it is -/

theorem not_tableFree {c : Call} (hc : s.calls[i]? = some c) (holds : c.holdsTable = true) :
    s.tableFree ≠ true := by
  intro free
  rw [not_holdsTable free hc] at holds
  cases holds

/-- Nobody else changes the table while somebody holds it. -/
theorem table_of_holdsTable (hs : Reachable s) (hfire : s.fire m = some t) {c : Call}
    (hc : s.calls[i]? = some c) (holds : c.holdsTable = true) (others : m.caller? ≠ some i) :
    t.table = s.table := by
  have busy := not_tableFree hc holds
  cases step_of_fire hfire with
  | call stage step =>
    cases step with
    | addStores =>
      have hi := hs.alone stage hc rfl holds
      exact absurd (congrArg some hi) others
    | removeForces free | closeClears free => exact absurd free busy
    | _ => rfl
  | reader step =>
    generalize s.reading = hand at step
    cases step with
    | last _ _ _ free | clear free => exact absurd free busy
    | _ => rfl
  | _ => rfl

/-- A registration that holds the table and makes a step goes on. -/
theorem others_of_holdsTable (hfire : s.fire m = some t) {c : Call} (before : s.calls[i]? = some c)
    (after : t.calls[i]? = some c) (holds : c.holdsTable = true) : m.caller? ≠ some i := by
  intro hm
  obtain ⟨d, u, step, rfl⟩ := callStep_of_fire before hm hfire
  cases (step.after before).symm.trans after
  cases step with
  | addKnocks knock =>
    obtain ⟨rfl, -⟩ | ⟨rfl, -⟩ | ⟨-, rfl⟩ := Progress.knock_cases knock
    all_goals cases holds
  | removeKnocks | removeSleeps | listKnocks => cases holds

/-- A registration has looked up what to ask for while nobody held the table. -/
theorem asking_of_fire (hfire : s.fire m = some t)
    (stage : t.calls[i]? = some (.add p o (.inside (.asking wanted known)))) :
    s.calls[i]? = some (.add p o (.inside (.asking wanted known))) ∨
      s.tableFree = true ∧ s.table.demand p.normalize o.flags = (wanted, known) ∧
        t.core = s.core := by
  rcases call_of_fire hfire stage with hsame | ⟨-, fresh⟩ | ⟨d, u, hd, step, rfl⟩
  · exact .inl hsame
  · cases fresh
  · cases step with
    | addKnocks knock => cases Progress.entry_of_knock knock
    | addLooks free demand => exact .inr ⟨free, demand, rfl⟩

/-! ## The answer of the kernel -/

theorem covers_armed (wanted : Mask) (known : Bool) : (armed wanted known).Covers wanted := by
  unfold armed
  split
  · exact Mask.covers_or_left _ _
  · exact .refl _

/-- Whether a watch is to be widened is not a thing that happens. -/
theorem has_of_armed {bits : Mask}
    (hbits : (armed wanted known &&& Mask.happenings).has bits = true) : wanted.has bits = true := by
  unfold armed at hbits
  split at hbits
  · exact Mask.has_of_apart (by decide) hbits
  · exact (Mask.covers_and _ _).has hbits

/-- The kernel grants a registration a watch on what its path leads to. -/
structure Granted (s : Interplay) (i : Nat) (p : Path) (o : WatchOptions) (wanted : Mask)
    (known : Bool) (inode : Inode) (h : Handle) (t : Interplay) : Prop where
  before : s.calls[i]? = some (.add p o (.inside (.asking wanted known)))
  after : t.calls[i]? = some (.add p o (.inside (.told wanted (.ok h))))
  isOpen : s.descriptorOpen = true
  found : s.watcher.kernel.tree.find (!(armed wanted known).has Mask.dontFollow) p.normalize =
    .ok inode
  granted : (s.notifier.grant inode (armed wanted known)).1 = .ok h
  core : t.core = { s.core with notifier := (s.notifier.grant inode (armed wanted known)).2 }

theorem Granted.notifier {inode : Inode} (granted : s.Granted i p o wanted known inode h t) :
    t.notifier = (s.notifier.grant inode (armed wanted known)).2 :=
  congrArg Core.notifier granted.core

theorem Granted.table {inode : Inode} (granted : s.Granted i p o wanted known inode h t) :
    t.table = s.table := congrArg Core.table granted.core

/-- **What the kernel answers**: that it has no watch, or a handle. -/
theorem answer_of_asking (before : s.calls[i]? = some (.add p o (.inside (.asking wanted known))))
    (hfire : s.fire (.call i) = some t) :
    (∃ f, t = s.put i (.add p o (.inside (.told wanted (.error f))))) ∨
      ∃ inode h, s.Granted i p o wanted known inode h t := by
  obtain ⟨c, u, step, rfl⟩ := callStep_of_fire before rfl hfire
  have after := step.after before
  cases step with
  | addKnocks knock => cases knock
  | addAsks answer =>
    rcases s.watcher.arm_cases p.normalize (armed wanted known)
      with ⟨f, harm⟩ | ⟨inode, g, -, hopen, -, hfind, hgrant, harm⟩
    · cases harm.symm.trans answer
      exact .inl ⟨f, rfl⟩
    · cases harm.symm.trans answer
      exact .inr ⟨inode, g, before, after, hopen, hfind, hgrant, rfl⟩

/-- A registration has a handle that it had before, or is granted it now. -/
theorem granted_of_fire (hfire : s.fire m = some t)
    (stage : t.calls[i]? = some (.add p o (.inside (.told wanted (.ok h))))) :
    s.calls[i]? = some (.add p o (.inside (.told wanted (.ok h)))) ∨
      ∃ known inode, m = .call i ∧ s.Granted i p o wanted known inode h t := by
  rcases told_of_fire hfire stage with hsame | ⟨known, -, -, mover, hasking, -⟩
  · exact .inl hsame
  right
  subst mover
  rcases answer_of_asking hasking hfire with ⟨f, rfl⟩ | ⟨inode, g, granted⟩
  · cases calls_put_self hasking stage
  · cases granted.after.symm.trans stage
    exact ⟨known, inode, rfl, granted⟩

/-- A move that watches more than was watched, or something else, is a grant. -/
theorem watches_of_effect (heffect : s.Effect m t) :
    t.notifier.watches ⊆ s.notifier.watches ∨
      ∃ (i : Nat) (p : Path) (o : WatchOptions) (wanted : Mask) (known : Bool) (inode : Inode)
        (h : Handle), m = .call i ∧ s.Granted i p o wanted known inode h t := by
  have hsame : t.notifier.watches = s.notifier.watches → t.notifier.watches ⊆ s.notifier.watches :=
    fun hwatches => by rw [hwatches]; exact List.Subset.refl _
  cases heffect with
  | grant i inode flags h mover isOpen granted core asks =>
    obtain ⟨p, o, wanted, known, before, rfl, found, after⟩ := asks
    exact .inr ⟨i, p, o, wanted, known, inode, h, mover, before, after, isOpen, found, granted, core⟩
  | post r _ _ _ _ core =>
    have hnotifier : t.notifier = s.notifier.post r := congrArg Core.notifier core
    exact .inl (hsame (by rw [hnotifier, Notifier.watches_post]))
  | revoke h _ core =>
    have hnotifier : t.notifier = (s.notifier.revoke h).2 := congrArg Core.notifier core
    rw [hnotifier, Notifier.watches_revoke]
    exact .inl List.filter_sublist.subset
  | release _ core =>
    have hnotifier : t.notifier = .fresh s.notifier.limit := congrArg Core.notifier core
    rw [hnotifier]
    exact .inl (List.nil_subset _)
  | read _ _ _ _ _ core => exact .inl (hsame (congrArg (fun c : Core => c.notifier.watches) core))
  | done _ _ _ _ core =>
    exact .inl (hsame (congrArg (fun c : Core => c.notifier.watches) core).symm)
  | still core | purge _ _ _ _ _ _ _ _ core | giveUp _ core | store _ _ _ _ _ _ _ core
  | forced _ _ _ _ _ core | disk _ _ core | announce _ _ core | stop _ core | clear _ _ _ core
  | shut _ _ _ _ core =>
    exact .inl (hsame (congrArg (fun c : Core => c.notifier.watches) core))

/-- A registration that was granted a handle stores it, and returns. -/
theorem stores_of_told (before : s.calls[i]? = some (.add p o (.inside (.told wanted (.ok h)))))
    (hfire : s.fire (.call i) = some t) :
    t = (s.withWatcher (s.watcher.withTable (s.table.insert p.normalize ⟨h, wanted⟩))).put i
      (.add p o (.returned (.ok ()))) := by
  obtain ⟨c, u, step, rfl⟩ := callStep_of_fire before rfl hfire
  cases step with
  | addKnocks knock => cases knock
  | addStores => rfl

/-- After a move it holds the handle still, or has stored it. -/
theorem holds_or_stores (legible : s.Legible)
    (before : s.calls[i]? = some (.add p o (.inside (.told wanted (.ok h)))))
    (hfire : s.fire m = some t) :
    t.calls[i]? = some (.add p o (.inside (.told wanted (.ok h)))) ∨ m = .call i ∧
      t = (s.withWatcher (s.watcher.withTable (s.table.insert p.normalize ⟨h, wanted⟩))).put i
        (.add p o (.returned (.ok ()))) := by
  by_cases hm : m.caller? = some i
  · obtain ⟨c, u, step, rfl⟩ := callStep_of_fire before hm hfire
    cases step with
    | addKnocks knock => cases knock
    | addStores => exact .inr ⟨rfl, rfl⟩
  · exact .inl (call_stays (effect_of_fire legible hfire).2 before hm)

/-! ## What was looked up is still true -/

/-- What a registration asks for, and what it is about to store, is what the table demands. -/
structure Asks (s : Interplay) : Prop where
  asking : ∀ {i : Nat} {p o wanted known},
    s.calls[i]? = some (.add p o (.inside (.asking wanted known))) →
      s.table.demand p.normalize o.flags = (wanted, known)
  told : ∀ {i : Nat} {p o wanted h},
    s.calls[i]? = some (.add p o (.inside (.told wanted (.ok h)))) →
      (s.table.demand p.normalize o.flags).1 = wanted

theorem Asks.of_fire (hs : Reachable s) (asks : s.Asks) (hfire : s.fire m = some t) : t.Asks where
  asking := by
    intro i p o wanted known stage
    rcases asking_of_fire hfire stage with hsame | ⟨-, hdemand, core⟩
    · have others := others_of_holdsTable hfire hsame stage rfl
      rw [table_of_holdsTable hs hfire hsame rfl others]
      exact asks.asking hsame
    · have htable : t.table = s.table := congrArg Core.table core
      rw [htable]
      exact hdemand
  told := by
    intro i p o wanted h stage
    rcases told_of_fire hfire stage with hsame | ⟨known, _, _, -, hasking, -, -, core⟩
    · have others := others_of_holdsTable hfire hsame stage rfl
      rw [table_of_holdsTable hs hfire hsame rfl others]
      exact asks.told hsame
    · have htable : t.table = s.table := congrArg Core.table core
      rw [htable, asks.asking hasking]

theorem Reachable.asks (hs : Reachable s) : s.Asks := by
  obtain ⟨settings, tree, limit, hstart⟩ := hs
  induction hstart with
  | refl => exact ⟨nofun, nofun⟩
  | step before _ fired ih => exact ih.of_fire ⟨settings, tree, limit, before⟩ fired

/-! ## How the table changes -/

/-- **Every entry is stored by a registration, or was there before.** -/
theorem stored_or_kept (ordered : s.Ordered) (hfire : s.fire m = some t)
    (entry : t.table.entry? p = some w) : s.table.entry? p = some w ∨
      ∃ (i : Nat) (q : Path) (o : WatchOptions) (wanted : Mask) (h : Handle), m = .call i ∧
        s.calls[i]? = some (.add q o (.inside (.told wanted (.ok h)))) ∧
        (q.normalize == p) = true ∧ w = ⟨h, wanted⟩ := by
  have hpaired := ordered.paired
  rcases altered_of_fire hfire with hsame | alters
  · exact .inl (hsame ▸ entry)
  cases alters with
  | purge _ _ _ _ table | force _ _ _ _ _ _ table =>
    rw [table, hpaired.removeHandle_eq, WatchTable.entry?_without, Option.filter_eq_some_iff] at entry
    exact .inl entry.1
  | wipe _ table =>
    rw [table] at entry
    cases entry
  | store i q o wanted h mover stage table =>
    rw [table, hpaired.entry?_insert] at entry
    by_cases hq : (q.normalize == p) = true
    · rw [if_pos hq, Option.some.injEq] at entry
      exact .inr ⟨i, q, o, wanted, h, mover, stage, hq, entry.symm⟩
    · rw [if_neg hq, Option.filter_eq_some_iff] at entry
      exact .inl entry.1

end Interplay

end FileWatch
