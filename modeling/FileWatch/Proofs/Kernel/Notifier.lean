import FileWatch.Kernel.Notifier
import Mathlib.Data.List.Pairwise

/-!
# Handles of the kernel

The kernel counts its handles and gives out each number once.  So a live watch has a handle that was
given out (`Sound.issued`), and a handle that was given out and is not live never comes back: what is
granted is live already, or was never given out (`isLive_or_not_issued`).

Dropping a watch is a filter on the watches and, if the watch was live, one more record at the end of
the queue.
-/

namespace FileWatch

namespace Notifier

variable {n : Notifier}

/-- A handle that was given out. -/
def Issued (n : Notifier) (h : Handle) : Prop := ∃ k < n.granted, h = ⟨Int32.ofNat (k + 1)⟩

/-- Live watches have handles that were given out, and no two share a handle or a thing. -/
structure Sound (n : Notifier) : Prop where
  granted_le : n.granted ≤ handleLimit
  issued : ∀ w ∈ n.watches, n.Issued w.handle
  distinct : n.watches.Pairwise fun v w => v.handle ≠ w.handle ∧ v.inode ≠ w.inode

theorem sound_fresh (limit : Nat) : (fresh limit).Sound := ⟨Nat.zero_le _, nofun, .nil⟩

theorem isLive_iff {h : Handle} : n.isLive h = true ↔ ∃ w ∈ n.watches, w.handle = h := by
  unfold isLive
  simp

theorem Sound.issued_of_isLive {h : Handle} (sound : n.Sound) (live : n.isLive h = true) :
    n.Issued h := by
  obtain ⟨w, hw, rfl⟩ := isLive_iff.mp live
  exact sound.issued w hw

/-- Numbers up to the limit are told apart by the handles made of them. -/
theorem handle_inj {j k : Nat} (hj : j < handleLimit) (hk : k < handleLimit)
    (h : (⟨Int32.ofNat (j + 1)⟩ : Handle) = ⟨Int32.ofNat (k + 1)⟩) : j = k := by
  have hlimit : handleLimit = 2147483647 := rfl
  have hint := congrArg (fun g : Handle => g.id.toInt) h
  simp only at hint
  rw [Int32.toInt_ofNat_of_lt (by omega), Int32.toInt_ofNat_of_lt (by omega)] at hint
  omega

theorem Issued.ne_lost {h : Handle} (hn : n.granted ≤ handleLimit) (hissued : n.Issued h) :
    h ≠ lost.handle := by
  obtain ⟨k, hk, rfl⟩ := hissued
  have hlimit : handleLimit = 2147483647 := rfl
  intro heq
  have hint := congrArg (fun g : Handle => g.id.toInt) heq
  simp only at hint
  rw [Int32.toInt_ofNat_of_lt (by omega)] at hint
  have hlost : lost.handle.id.toInt = -1 := rfl
  omega

/-- A post changes the queue only. -/
theorem post_eq (r : Record) : n.post r = { n with queue := (n.post r).queue } := by
  unfold post
  split
  · rfl
  · split <;> rfl

@[simp] theorem watches_post (r : Record) : (n.post r).watches = n.watches := by
  unfold post
  split
  · rfl
  · split <;> rfl

@[simp] theorem granted_post (r : Record) : (n.post r).granted = n.granted := by
  unfold post
  split
  · rfl
  · split <;> rfl

/-- What a post adds to the queue: the record, or the record of its loss, or nothing. -/
theorem queue_post (r : Record) :
    (n.post r).queue = n.queue ∨ ∃ x, (x = r ∨ x = lost) ∧ (n.post r).queue = n.queue ++ [x] := by
  unfold post
  split
  · exact .inr ⟨r, .inl rfl, rfl⟩
  · split
    · exact .inl rfl
    · exact .inr ⟨lost, .inr rfl, rfl⟩

/-- What holds of the record, of the record of its loss, and of all that is queued, holds of all that
is queued afterwards. -/
theorem forall_queue_post {P : Record → Prop} {r : Record} (hqueue : ∀ q ∈ n.queue, P q) (hr : P r)
    (hlost : P lost) : ∀ q ∈ (n.post r).queue, P q := by
  intro q hq
  rcases @queue_post n r with hsame | ⟨x, hx, hadd⟩
  · exact hqueue q (hsame ▸ hq)
  · rw [hadd, List.mem_append, List.mem_singleton] at hq
    rcases hq with hq | rfl
    · exact hqueue q hq
    · rcases hx with rfl | rfl
      · exact hr
      · exact hlost

theorem Sound.post (sound : n.Sound) (r : Record) : (n.post r).Sound where
  granted_le := by rw [granted_post]; exact sound.granted_le
  issued := by
    rw [watches_post]
    intro w hw
    obtain ⟨k, hk, heq⟩ := sound.issued w hw
    exact ⟨k, by rw [granted_post]; exact hk, heq⟩
  distinct := by rw [watches_post]; exact sound.distinct

/-! ## Dropping a watch -/

def lastRecord (h : Handle) : Record := ⟨h, Mask.ignored, 0, none⟩

/-- The last record of a watch says that it is the last one, and nothing else. -/
theorem lastRecord_isLast (h : Handle) : (lastRecord h).mask.has Mask.ignored = true := by
  show Mask.ignored.has Mask.ignored = true
  decide

theorem lastRecord_isTold (h : Handle) : (lastRecord h).mask.has Mask.queueOverflow = false := by
  show Mask.ignored.has Mask.queueOverflow = false
  decide

theorem watches_revoke (h : Handle) :
    (n.revoke h).2.watches = n.watches.filter fun w => decide (w.handle ≠ h) := by
  unfold revoke
  split
  · exact watches_post _
  · rename_i hdead
    refine (List.filter_eq_self.mpr fun w hw => ?_).symm
    rw [decide_eq_true_eq]
    intro heq
    exact hdead (isLive_iff.mpr ⟨w, hw, heq⟩)

theorem granted_revoke (h : Handle) : (n.revoke h).2.granted = n.granted := by
  unfold revoke
  split
  · exact granted_post _
  · rfl

theorem queue_revoke (h : Handle) : (n.revoke h).2.queue = n.queue ∨
    n.isLive h = true ∧
      ∃ x, (x = lastRecord h ∨ x = lost) ∧ (n.revoke h).2.queue = n.queue ++ [x] := by
  unfold revoke
  split
  · rename_i hlive
    rcases @queue_post { n with watches := n.watches.filter fun w => w.handle ≠ h }
      (lastRecord h) with hsame | hadd
    · exact .inl hsame
    · exact .inr ⟨hlive, hadd⟩
  · exact .inl rfl

theorem queue_prefix_post (r : Record) : n.queue <+: (n.post r).queue := by
  rcases @queue_post n r with hsame | ⟨x, -, hadd⟩
  · exact hsame ▸ List.prefix_refl _
  · rw [hadd]
    exact List.prefix_append _ _

theorem queue_prefix_revoke (h : Handle) : n.queue <+: (n.revoke h).2.queue := by
  rcases @queue_revoke n h with hsame | ⟨-, x, -, hadd⟩
  · exact hsame ▸ List.prefix_refl _
  · rw [hadd]
    exact List.prefix_append _ _

theorem isLive_revoke (g h : Handle) :
    (n.revoke g).2.isLive h = (n.isLive h && decide (h ≠ g)) := by
  unfold isLive
  rw [watches_revoke, List.any_filter, Bool.eq_iff_iff]
  simp only [List.any_eq_true, Bool.and_eq_true, decide_eq_true_eq]
  constructor
  · rintro ⟨w, hw, hne, rfl⟩
    exact ⟨⟨w, hw, rfl⟩, hne⟩
  · rintro ⟨⟨w, hw, rfl⟩, hne⟩
    exact ⟨w, hw, hne, rfl⟩

/-- A watch that is dropped leaves a record at most. -/
theorem length_revoke_le (n : Notifier) (h : Handle) :
    (n.revoke h).2.queue.length + (n.revoke h).2.watches.length ≤
      n.queue.length + n.watches.length := by
  have hwatches := congrArg List.length (watches_revoke (n := n) h)
  rcases queue_revoke (n := n) h with hsame | ⟨hlive, x, -, hadd⟩
  · rw [hsame, hwatches]
    exact Nat.add_le_add_left (List.length_filter_le _ _) _
  · obtain ⟨w, hw, hh⟩ := isLive_iff.mp hlive
    have hless : (n.watches.filter fun v => decide (v.handle ≠ h)).length < n.watches.length :=
      List.length_filter_lt_length_iff_exists.mpr ⟨w, hw, by simpa using hh⟩
    rw [hadd, hwatches, List.length_append, List.length_singleton]
    omega

theorem Sound.revoke (sound : n.Sound) (h : Handle) : (n.revoke h).2.Sound where
  granted_le := by rw [granted_revoke]; exact sound.granted_le
  issued := by
    rw [watches_revoke]
    intro w hw
    obtain ⟨k, hk, heq⟩ := sound.issued w (List.mem_filter.mp hw).1
    exact ⟨k, by rw [granted_revoke]; exact hk, heq⟩
  distinct := by rw [watches_revoke]; exact sound.distinct.filter _

/-! ## Granting a watch -/

section Grant

variable {inode : Inode} {flags : Mask} {h : Handle}

/-- Where the kernel has no watch, it changes nothing. -/
theorem grant_error {e : Errno} {n' : Notifier} (h : n.grant inode flags = (.error e, n')) :
    n' = n := by
  unfold Notifier.grant at h
  split at h
  · cases h
  · split at h
    · cases h
    · cases h
      rfl

/-- What is granted: the handle of a live watch on the thing, or the next handle. -/
theorem grant_cases (hok : (n.grant inode flags).1 = .ok h) :
    (∃ w mask, n.watchOf? inode = some w ∧ w.handle = h ∧ (n.grant inode flags).2 =
      { n with watches := n.watches.map fun v => if v.inode = inode then { v with mask } else v }) ∨
    (∃ mask, n.watchOf? inode = none ∧ n.granted < handleLimit ∧
      h = ⟨Int32.ofNat (n.granted + 1)⟩ ∧ (n.grant inode flags).2 =
      { n with watches := n.watches ++ [⟨h, inode, mask⟩], granted := n.granted + 1 }) := by
  unfold grant at hok ⊢
  cases hof : n.watchOf? inode with
  | some w =>
    simp only [hof] at hok ⊢
    cases hok
    exact .inl ⟨w, _, rfl, rfl, rfl⟩
  | none =>
    simp only [hof] at hok ⊢
    split at hok
    · rename_i hroom
      cases hok
      simp only [if_pos hroom]
      exact .inr ⟨_, trivial, hroom, trivial, rfl⟩
    · cases hok

theorem watchOf?_eq_some {w : KernelWatch} (h : n.watchOf? inode = some w) :
    w ∈ n.watches ∧ w.inode = inode :=
  ⟨List.mem_of_find?_eq_some h, by simpa using List.find?_some h⟩

theorem watchOf?_eq_none (h : n.watchOf? inode = none) {w : KernelWatch} (hw : w ∈ n.watches) :
    w.inode ≠ inode := by
  simpa using List.find?_eq_none.mp h w hw

/-- A granted handle is live afterwards, and so is what was live. -/
theorem isLive_grant (hok : (n.grant inode flags).1 = .ok h) (g : Handle) :
    (n.grant inode flags).2.isLive g = (n.isLive g || decide (g = h)) := by
  rcases grant_cases hok with ⟨w, mask, hof, rfl, heq⟩ | ⟨mask, -, -, -, heq⟩
  · rw [heq, Bool.eq_iff_iff, Bool.or_eq_true, decide_eq_true_eq]
    unfold isLive
    simp only [List.any_map, List.any_eq_true, Function.comp_apply, decide_eq_true_eq]
    constructor
    · rintro ⟨v, hv, hhandle⟩
      refine .inl ⟨v, hv, ?_⟩
      split at hhandle <;> exact hhandle
    · rintro (⟨v, hv, rfl⟩ | rfl)
      · refine ⟨v, hv, ?_⟩
        split <;> rfl
      · refine ⟨w, (watchOf?_eq_some hof).1, ?_⟩
        split <;> rfl
  · rw [heq]
    unfold isLive
    rw [List.any_append, List.any_cons, List.any_nil, Bool.or_false]
    congr 1
    exact decide_eq_decide.mpr eq_comm

/-- A granted handle was live, or was not given out before. -/
theorem isLive_or_not_issued (sound : n.Sound) (hok : (n.grant inode flags).1 = .ok h) :
    n.isLive h = true ∨ ¬ n.Issued h := by
  rcases grant_cases hok with ⟨w, -, hof, hw, -⟩ | ⟨-, -, hroom, rfl, -⟩
  · exact .inl (isLive_iff.mpr ⟨w, (watchOf?_eq_some hof).1, hw⟩)
  · refine .inr ?_
    rintro ⟨k, hk, heq⟩
    have := handle_inj hroom (by have := sound.granted_le; omega) heq
    omega

theorem queue_grant (hok : (n.grant inode flags).1 = .ok h) :
    (n.grant inode flags).2.queue = n.queue := by
  rcases grant_cases hok with ⟨w, mask, -, -, heq⟩ | ⟨mask, -, -, -, heq⟩
  · rw [heq]
  · rw [heq]

theorem Issued.grant {g : Handle} (hissued : n.Issued g)
    (hok : (n.grant inode flags).1 = .ok h) : (n.grant inode flags).2.Issued g := by
  obtain ⟨k, hk, rfl⟩ := hissued
  rcases grant_cases hok with ⟨w, mask, -, -, heq⟩ | ⟨mask, -, -, -, heq⟩
  · rw [heq]
    exact ⟨k, hk, rfl⟩
  · rw [heq]
    exact ⟨k, Nat.lt_succ_of_lt hk, rfl⟩

theorem Sound.grant (sound : n.Sound) (hok : (n.grant inode flags).1 = .ok h) :
    (n.grant inode flags).2.Sound := by
  have hissued : ∀ w ∈ n.watches, (n.grant inode flags).2.Issued w.handle :=
    fun w hw => (sound.issued w hw).grant hok
  have hnew := isLive_or_not_issued sound hok
  rcases grant_cases hok with ⟨w, mask, -, -, heq⟩ | ⟨mask, hof, hroom, hh, heq⟩
  · rw [heq] at hissued ⊢
    refine ⟨sound.granted_le, ?_, ?_⟩
    · intro v hv
      obtain ⟨u, hu, rfl⟩ := List.mem_map.mp hv
      have := hissued u hu
      split <;> exact this
    · refine List.pairwise_map.mpr (sound.distinct.imp ?_)
      intro u v huv
      split <;> split <;> exact huv
  · rw [heq] at hissued ⊢
    refine ⟨hroom, ?_, ?_⟩
    · intro v hv
      rcases List.mem_append.mp hv with hv | hv
      · exact hissued v hv
      · rw [List.mem_singleton.mp hv]
        exact ⟨n.granted, Nat.lt_succ_self _, hh⟩
    · refine List.pairwise_append.mpr ⟨sound.distinct, List.pairwise_singleton _ _, ?_⟩
      intro u hu v hv
      rw [List.mem_singleton.mp hv]
      refine ⟨?_, watchOf?_eq_none hof hu⟩
      rintro rfl
      obtain ⟨k, hk, hku⟩ := sound.issued u hu
      have := handle_inj hroom (by have := sound.granted_le; omega) (hh.symm.trans hku)
      omega

end Grant

/-! ## Which thing a handle watches -/

section Watches

variable {g h : Handle} {i j : Inode}

/-- A handle stands for a live watch on a thing. -/
def Watches (n : Notifier) (h : Handle) (i : Inode) : Prop :=
  ∃ w ∈ n.watches, w.handle = h ∧ w.inode = i

theorem Watches.isLive (hwatches : n.Watches h i) : n.isLive h = true := by
  obtain ⟨w, hw, hh, -⟩ := hwatches
  exact isLive_iff.mpr ⟨w, hw, hh⟩

/-- Handles and things belong to each other one by one. -/
theorem Watches.handle_eq_iff (sound : n.Sound) (hg : n.Watches g i) (hh : n.Watches h j) :
    g = h ↔ i = j := by
  obtain ⟨v, hv, rfl, rfl⟩ := hg
  obtain ⟨w, hw, rfl, rfl⟩ := hh
  have hpairwise := sound.distinct.imp (S := fun v w => v.handle = w.handle ↔ v.inode = w.inode)
    fun hvw => ⟨fun h => absurd h hvw.1, fun h => absurd h hvw.2⟩
  have hsymm : Std.Symm fun v w : KernelWatch => (v.handle = w.handle ↔ v.inode = w.inode) :=
    ⟨fun _ _ h => by rw [eq_comm, h, eq_comm]⟩
  exact hpairwise.forall_of_forall (fun _ _ => ⟨fun _ => rfl, fun _ => rfl⟩) hv hw

theorem Watches.revoke (hwatches : n.Watches h i) (hne : h ≠ g) : (n.revoke g).2.Watches h i := by
  obtain ⟨w, hw, rfl, hi⟩ := hwatches
  refine ⟨w, ?_, rfl, hi⟩
  rw [watches_revoke]
  exact List.mem_filter.mpr ⟨hw, decide_eq_true hne⟩

/-- A grant makes its handle stand for the thing, and leaves the others what they are. -/
theorem watches_grant {flags : Mask} (hok : (n.grant i flags).1 = .ok h) :
    (n.grant i flags).2.Watches h i ∧
      ∀ {g j}, n.Watches g j → (n.grant i flags).2.Watches g j := by
  rcases grant_cases hok with ⟨w, mask, hof, rfl, heq⟩ | ⟨mask, -, -, -, heq⟩
  · have hkept : ∀ v ∈ n.watches, (n.grant i flags).2.Watches v.handle v.inode := by
      intro v hv
      rw [heq]
      refine ⟨_, List.mem_map_of_mem hv, ?_⟩
      split <;> exact ⟨rfl, rfl⟩
    obtain ⟨hw, hwi⟩ := watchOf?_eq_some hof
    refine ⟨hwi ▸ hkept w hw, ?_⟩
    rintro g j ⟨v, hv, rfl, rfl⟩
    exact hkept v hv
  · rw [heq]
    refine ⟨⟨_, List.mem_append_right _ (List.mem_singleton_self _), rfl, rfl⟩, ?_⟩
    rintro g j ⟨v, hv, hvj⟩
    exact ⟨v, List.mem_append_left _ hv, hvj⟩

/-- **A grant touches the watch of its handle only.**  That one has the bits that were asked for, and
perhaps those that it had. -/
theorem mem_watches_grant {flags : Mask} (sound : n.Sound) (hok : (n.grant i flags).1 = .ok h)
    {v : KernelWatch} (hv : v ∈ (n.grant i flags).2.watches) :
    (v ∈ n.watches ∧ v.handle ≠ h) ∨
      v.handle = h ∧ (v.mask = flags &&& Mask.happenings ∨
        ∃ u ∈ n.watches, u.handle = h ∧ v.mask = u.mask ||| flags &&& Mask.happenings) := by
  unfold grant at hok hv
  cases hof : n.watchOf? i with
  | some w =>
    simp only [hof] at hok hv
    cases hok
    obtain ⟨hw, hwi⟩ := watchOf?_eq_some hof
    obtain ⟨u, hu, rfl⟩ := List.mem_map.mp hv
    by_cases hui : u.inode = i
    · -- The watch on the thing: there is one only.
      have heq : u.handle = w.handle :=
        (Watches.handle_eq_iff sound ⟨u, hu, rfl, rfl⟩ ⟨w, hw, rfl, rfl⟩).mpr (hui.trans hwi.symm)
      rw [if_pos hui]
      refine .inr ⟨heq, ?_⟩
      simp only
      split
      · exact .inr ⟨w, hw, rfl, rfl⟩
      · exact .inl rfl
    · rw [if_neg hui]
      refine .inl ⟨hu, fun heq => hui ?_⟩
      exact ((Watches.handle_eq_iff sound ⟨u, hu, rfl, rfl⟩ ⟨w, hw, rfl, rfl⟩).mp heq).trans hwi
  | none =>
    simp only [hof] at hok hv
    split at hok
    · rename_i room
      cases hok
      simp only [if_pos room] at hv
      rcases List.mem_append.mp hv with hv | hv
      · refine .inl ⟨hv, fun heq => ?_⟩
        obtain ⟨k, hk, hvk⟩ := sound.issued v hv
        have := handle_inj room (by have := sound.granted_le; omega) (heq.symm.trans hvk)
        omega
      · rw [List.mem_singleton.mp hv]
        exact .inr ⟨rfl, .inl rfl⟩
    · cases hok

end Watches

/-! ## The limit of the queue -/

@[simp] theorem limit_post (r : Record) : (n.post r).limit = n.limit := by
  unfold post
  split
  · rfl
  · split <;> rfl

@[simp] theorem limit_revoke (h : Handle) : (n.revoke h).2.limit = n.limit := by
  unfold revoke
  split
  · exact limit_post _
  · rfl

@[simp] theorem limit_grant (i : Inode) (flags : Mask) : (n.grant i flags).2.limit = n.limit := by
  unfold grant
  split
  · rfl
  · split <;> rfl

/-- While there is room, the last record of a watch that is dropped is queued. -/
theorem queue_revoke_of_room {h : Handle} (hlive : n.isLive h = true)
    (room : n.queue.length < n.limit) : (n.revoke h).2.queue = n.queue ++ [lastRecord h] := by
  unfold revoke post
  rw [if_pos hlive, if_pos room]
  rfl

end Notifier

end FileWatch
