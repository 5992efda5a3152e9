import FileWatch.Proofs.Interplay.Alone
import FileWatch.Proofs.Interplay.Removal
import FileWatch.Proofs.WatchTable.Holdings

/-!
# One caller, and names that stay

A caller goes through a script of errands, one call after the other.  Meanwhile the reader works at its
own pace, the kernel tells what it has to tell, and files come and go.  But no watched thing gets
another name or loses its last one, a path leads to the same thing all the time, and nobody closes the
watcher.  Moves of this kind are `Steady`.

Of the kernel a steady move asks two things.  It has room for the last record of a watch that a
removal drops.  And whether it has a watch to give is up to it, but the script says so.

What leaves names alone, the reader at work and the watcher open is `Tame`, whoever calls.  Around the
calls tame moves change little (`Drift`): of what the parties share the records, and of the table a
handle that is not live.
-/

namespace FileWatch

/-- Why the kernel has no watch for what a path leads to. -/
def Kernel.shortage? (k : Kernel) (p : Path) (flags : Mask) : Option Errno :=
  if flags.has Mask.known then
    match k.tree.find (!flags.has Mask.dontFollow) p with
    | .ok i =>
      match (k.notifier.grant i flags).1 with
      | .error e => some e
      | .ok _ => none
    | .error _ => none
  else none

/-- **The kernel's answer is the verdict** on what it is asked for. -/
theorem Watcher.arm_eq (w : Watcher) (isOpen : w.reader.descriptorOpen = true) {p : Path}
    {wanted flags : Mask} (known : flags.has Mask.known = wanted.has Mask.known)
    (follow : flags.has Mask.dontFollow = wanted.has Mask.dontFollow) {refused : Option Errno}
    (decided : p.bytes.contains 0 = false → refused = w.kernel.shortage? p flags) :
    (∃ cause, Holdings.verdict w.kernel.tree.find p wanted refused = .error cause ∧
      w.arm p flags = (.error (.registration p cause), w.kernel)) ∨
    ∃ inode g, Holdings.verdict w.kernel.tree.find p wanted refused = .ok inode ∧
      (w.kernel.notifier.grant inode flags).1 = .ok g ∧ w.arm p flags = (.ok g,
        { w.kernel with notifier := (w.kernel.notifier.grant inode flags).2 }) := by
  unfold Holdings.verdict Watcher.arm
  cases hnul : p.bytes.findIdx? (· == 0) with
  | some n => exact .inl ⟨_, rfl, rfl⟩
  | none =>
    have hno : p.bytes.contains 0 = false := by
      rw [List.findIdx?_eq_none_iff] at hnul
      rw [List.contains_eq_any_beq, List.any_eq_false]
      intro b hb
      simpa [BEq.comm] using hnul b hb
    obtain rfl := decided hno
    unfold Kernel.shortage? Kernel.watch
    rw [isOpen, ← known, ← follow]
    cases flags.has Mask.known with
    | false => exact .inl ⟨_, rfl, rfl⟩
    | true =>
      cases hfind : w.kernel.tree.find (!flags.has Mask.dontFollow) p with
      | error e => exact .inl ⟨.errno e, by simp, by simp⟩
      | ok inode =>
        rcases hgrant : w.kernel.notifier.grant inode flags with ⟨e | g, n⟩
        · have hsame := Notifier.grant_error hgrant
          subst hsame
          exact .inl ⟨.errno e, by simp [hgrant], by simp [hgrant]⟩
        · exact .inr ⟨inode, g, by simp [hgrant], by rw [hgrant], by simp [hgrant]⟩

/-! ## Errands as calls -/

def Errand.call : Errand → Interplay.Call
  | .add p o _ => .add p o .arriving
  | .remove p => .remove p .arriving
  | .list => .list .arriving

namespace Interplay

variable {s t : Interplay} {m : Move} {script : List Errand}
  {find : Bool → Path → Except Errno Inode}

/-- What a call has got. -/
def Call.outcome? : Call → Option Errand.Outcome
  | .add _ _ (.returned result) => some (.done result)
  | .remove _ (.returned result) => some (.done result)
  | .list (.returned paths) => some (.listed paths)
  | .close (.returned result) => some (.done result)
  | _ => none

theorem Call.isSome_outcome? (c : Call) : c.outcome?.isSome = c.hasReturned := by
  unfold Call.outcome? Call.hasReturned
  split <;> simp_all

/-! ## Steady moves -/

/-- Moves that follow a script and leave names alone. -/
inductive Steady (script : List Errand) (s : Interplay) : Move → Prop
  /-- The next errand is begun when all before it are done. -/
  | begin {q : Errand} (idle : s.allReturned = true) (next : script[s.calls.length]? = some q) :
    Steady script s (.begin q.call)
  /-- A call makes its next step.  If that has the kernel look for a watch, the script says whether it
  has one; if it has the kernel drop a watch, there is room for the last record. -/
  | call {i : Nat}
    (decided : ∀ {p o wanted known},
      s.calls[i]? = some (Call.add p o (.inside (.asking wanted known))) →
      p.normalize.bytes.contains 0 = false → script[i]? = some (.add p o
        (s.watcher.kernel.shortage? p.normalize (if known then wanted ||| Mask.maskAdd else wanted))))
    (room : ∀ {p g}, s.calls[i]? = some (Call.remove p (.inside (.found g))) →
      s.notifier.queue.length < s.notifier.limit) : Steady script s (.call i)
  | refuse {i : Nat} {e : Errno} {p : Path} {o : WatchOptions}
    (decided : script[i]? = some (.add p o (some e))) : Steady script s (.refuse i e)
  | timeout (i : Nat) : Steady script s (.timeout i)
  | reader : Steady script s .reader
  | fault (f : Failure) : Steady script s (.fault f)
  /-- Anything is told but that a watched thing got another name. -/
  | queue {r : Record} (stays : (r.mask.has Mask.moveSelf && r.name.isNone) = false) :
    Steady script s (.queue r)
  | disk {tree : Tree} (same : tree.find = s.watcher.kernel.tree.find) : Steady script s (.disk tree)
  | takeEvents : Steady script s .takeEvents
  | takeErrors : Steady script s .takeErrors
  | abandonEvents : Steady script s .abandonEvents
  | abandonErrors : Steady script s .abandonErrors

/-- Moves that leave names alone, the reader at work and the watcher open. -/
def Tame (s : Interplay) : Move → Prop
  | .begin c => c.request ≠ .close
  | .queue r => (r.mask.has Mask.moveSelf && r.name.isNone) = false
  | .disk tree => tree.find = s.watcher.kernel.tree.find
  | .death _ => False
  | .leave => False
  | .giveUp => False
  | _ => True

theorem Steady.tame (steady : Steady script s m) : Tame s m := by
  cases steady with
  | @begin q _ _ => cases q <;> exact nofun
  | queue stays => exact stays
  | disk same => exact same
  | call | refuse | timeout | reader | fault | takeEvents | takeErrors | abandonEvents
  | abandonErrors => trivial

/-- The reader is at work.  With the last record of a watch it is done in one step. -/
def Reading.Working : Reading → Prop
  | .polling => True
  | .taken _ => True
  | .reporting _ none => True
  | .reporting _ (some r) => r.mask.has Mask.ignored = false
  | .settled r => r.mask.has Mask.ignored = false
  | .nested r _ => r.mask.has Mask.ignored = false
  | .single r => r.mask.has Mask.ignored = false
  | .translated r _ => r.mask.has Mask.ignored = false
  | .handing r _ => r.mask.has Mask.ignored = false
  | _ => False

theorem Reading.Working.eq_taken {reading : Reading} (working : reading.Working) {r : Record}
    (hrecord : reading.record? = some r) (last : r.mask.has Mask.ignored = true) :
    reading = .taken r := by
  cases reading with
  | taken q =>
    cases hrecord
    rfl
  | reporting f rest =>
    cases rest with
    | none => cases hrecord
    | some q =>
      cases hrecord
      exact absurd (last.symm.trans working) nofun
  | settled | nested | single | translated | handing =>
    cases hrecord
    exact absurd (last.symm.trans working) nofun
  | _ => cases hrecord

/-- What tame moves keep. -/
structure Calm (find : Bool → Path → Except Errno Inode) (s : Interplay) : Prop where
  atWork : s.watcher.reader.AtWork
  phase : s.watcher.phase = .running
  working : s.reading.Working
  tree : s.watcher.kernel.tree.find = find
  limit : 0 < s.notifier.limit
  /-- No record that waits has the reader drop a watch. -/
  stays : ∀ r ∈ s.pending, (r.mask.has Mask.moveSelf && r.name.isNone) = false
  unclosed : ∀ c ∈ s.calls, c.request ≠ .close

theorem calm_start (settings : Settings) (tree : Tree) {limit : Nat} (hlimit : 0 < limit) :
    (start settings tree limit).Calm tree.find :=
  ⟨⟨rfl, rfl, rfl⟩, rfl, trivial, rfl, hlimit, nofun, nofun⟩

theorem Calm.not_close (calm : s.Calm find) {i : Nat} {closing : Closing} :
    s.calls[i]? ≠ some (.close closing) :=
  fun h => calm.unclosed _ (List.mem_of_getElem? h) rfl

/-- What a tame move does to what the parties share. -/
inductive Drift (s : Interplay) (m : Move) (t : Interplay) : Prop
  /-- Records come and go, and files do. -/
  | around (tree : t.core.tree.find = s.core.tree.find)
      (core : t.core = { s.core with
        tree := t.core.tree, taken := t.core.taken,
        notifier := { s.notifier with queue := t.core.notifier.queue } })
  | purge (r : Record) (hand : s.reading = .taken r) (last : r.mask.has Mask.ignored = true)
      (woken : t.sleepers = [])
      (core : t.core =
        { s.core with table := s.table.without [r.handle], taken := t.core.taken })
  | called (i : Nat) (mover : m.caller? = some i)
      (limit : t.core.notifier.limit = s.notifier.limit)
      (core : t.core = { s.core with table := t.core.table, notifier := t.core.notifier })

theorem Drift.of_around {c : Core} (core : t.core = c) (tree : c.tree.find = s.core.tree.find)
    (same : c = { s.core with
      tree := c.tree, taken := c.taken, notifier := { s.notifier with queue := c.notifier.queue } }) :
    s.Drift m t := by
  subst core
  exact .around tree same

theorem Drift.of_called {c : Core} {i : Nat} (core : t.core = c) (mover : m.caller? = some i)
    (limit : c.notifier.limit = s.notifier.limit)
    (same : c = { s.core with table := c.table, notifier := c.notifier }) : s.Drift m t := by
  subst core
  exact .called i mover limit same

theorem Calm.drift (calm : s.Calm find) (ordered : s.Ordered) (tame : Tame s m)
    (heffect : s.Effect m t) : s.Drift m t := by
  have hworking := calm.working
  cases heffect with
  | still core => exact .of_around core rfl rfl
  | done r _ _ _ core =>
    have hback : t.core = { s.core with taken := t.taken } := by
      rw [core]
      rfl
    exact .of_around hback rfl rfl
  | purge r _ hand last _ woken _ _ core =>
    refine .purge r hand last woken ?_
    rw [core, WatchTable.purge, ordered.paired.removeHandle_eq]
  | giveUp closing _ =>
    rw [calm.atWork.unclosed] at closing
    cases closing
  | read rs left _ _ _ core => exact .of_around core rfl rfl
  | grant i inode flags g mover _ _ core =>
    exact .of_called core (congrArg Move.caller? mover) (Notifier.limit_grant inode flags) rfl
  | store i p o wanted g mover _ core => exact .of_called core (congrArg Move.caller? mover) rfl rfl
  | post r _ _ _ _ core =>
    refine .of_around core rfl ?_
    rw [Notifier.post_eq]
  | revoke g by_whom core =>
    rcases by_whom with rfl | ⟨i, p, rfl, -⟩ | ⟨r, -, hand, -, moved⟩
    · exact tame.elim
    · exact .of_called core rfl (Notifier.limit_revoke g) rfl
    · have hstays := calm.stays r (mem_pending hand rfl)
      rw [moved] at hstays
      cases hstays
  | forced i g mover _ _ core => exact .of_called core (congrArg Move.caller? mover) rfl rfl
  | disk tree mover core =>
    subst mover
    exact .of_around core tame rfl
  | announce i stage _ => exact absurd stage calm.not_close
  | stop hand _ =>
    rw [hand] at hworking
    cases hworking
  | release by_whom _ =>
    rcases by_whom with hand | ⟨i, result, stage⟩
    · rw [hand] at hworking
      cases hworking
    · exact absurd stage calm.not_close
  | clear by_whom _ _ _ =>
    rcases by_whom with hand | ⟨i, result, stage⟩
    · rw [hand] at hworking
      cases hworking
    · exact absurd stage calm.not_close
  | shut i result _ stage _ => exact absurd stage calm.not_close

/-! ## The calm lasts -/

/-- A reader at work stays at work, unless it gives up or leaves. -/
theorem Reading.Turn.working {before after : Reading} (turn : Reading.Turn m before after)
    (tame : Tame s m) (working : before.Working) : after.Working := by
  cases turn with
  | stays => exact working
  | read | take | garbled | lost | last | report | covered | silent | stale | hand | fault => trivial
  | fails more => exact more
  | settle more => exact more
  | resume | nest | pass | uncovered | translate | keep => exact working
  | stop | release | clear | go => cases working
  | leave | giveUpReport | giveUpEvent => exact tame.elim

/-- No record comes that has the reader drop a watch. -/
theorem stays_of_effect
    (stays : ∀ r ∈ s.pending, (r.mask.has Mask.moveSelf && r.name.isNone) = false)
    (tame : Tame s m) (heffect : s.Effect m t) :
    ∀ r ∈ t.pending, (r.mask.has Mask.moveSelf && r.name.isNone) = false := by
  intro r hr
  rcases pending_of_effect heffect with hsub | ⟨q, x, -, hx, hcame, -, -, hadd⟩
  · exact stays r (hsub.subset hr)
  · rw [hadd, List.mem_append, List.mem_singleton] at hr
    rcases hr with hr | rfl
    · exact stays r hr
    · rcases hx with rfl | rfl
      · rcases hcame with rfl | hlast
        · exact tame
        · rw [hlast]
          rfl
      · rfl

theorem unclosed_of_touches (unclosed : ∀ c ∈ s.calls, c.request ≠ .close)
    (tame : Tame s m) (htouches : s.Touches m t) : ∀ c ∈ t.calls, c.request ≠ .close := by
  intro c hc
  obtain ⟨i, hi⟩ := List.mem_iff_getElem?.mp hc
  rcases call_of_touches htouches hi with hsame | ⟨-, rfl, -⟩ | ⟨d, -, hd, passes⟩
  · exact unclosed c (List.mem_of_getElem? hsame)
  · exact tame
  · rw [passes.request]
    exact unclosed d (List.mem_of_getElem? hd)

/-- What the parties share keeps all that a calm needs. -/
theorem Drift.keeps (drift : s.Drift m t) : t.core.phase = s.core.phase ∧
    t.core.running = s.core.running ∧ t.core.closing = s.core.closing ∧
    t.core.descriptorOpen = s.core.descriptorOpen ∧ t.core.tree.find = s.core.tree.find ∧
    t.core.notifier.limit = s.core.notifier.limit := by
  cases drift with
  | around tree core =>
    exact ⟨by rw [core], by rw [core], by rw [core], by rw [core], tree, by rw [core]; rfl⟩
  | purge r _ _ _ core =>
    exact ⟨by rw [core], by rw [core], by rw [core], by rw [core], by rw [core], by rw [core]⟩
  | called i _ limit core =>
    exact ⟨by rw [core], by rw [core], by rw [core], by rw [core], by rw [core], limit⟩

/-- **The calm lasts.** -/
theorem Calm.of_fire (hs : Reachable s) (calm : s.Calm find) (tame : Tame s m)
    (hfire : s.fire m = some t) : t.Calm find := by
  obtain ⟨heffect, htouches⟩ := effect_of_fire hs.legible hfire
  obtain ⟨hphase, hrunning, hclosing, hopen, htree, hlimit⟩ :=
    (calm.drift hs.ordered tame heffect).keeps
  exact ⟨⟨hrunning.trans calm.atWork.running, hclosing.trans calm.atWork.unclosed,
      hopen.trans calm.atWork.isOpen⟩, hphase.trans calm.phase,
    (turn_of_fire hfire).working tame calm.working, htree.trans calm.tree,
    hlimit.symm ▸ calm.limit, stays_of_effect calm.stays tame heffect,
    unclosed_of_touches calm.unclosed tame htouches⟩

end Interplay

end FileWatch
