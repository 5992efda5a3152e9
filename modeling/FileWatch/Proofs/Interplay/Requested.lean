import Mathlib
import FileWatch.Proofs.Interplay.Asking
import FileWatch.Proofs.Reader.Dispatch

/-!
# Nothing unrequested is delivered

An event goes through many hands: a registration asks for bits, the kernel keeps them as the mask of a
watch, a record has some of them, and the reader makes operations of the record.  Each hand adds to
what it gets only what does not count.  So every bit that is anywhere on the way is `Warranted`: a
registration of the path asked for it and was granted a watch.

A registration that was granted a watch has perhaps not returned.  But it holds the table until it
does, and the reader cannot make an event as long as somebody holds the table; so what is in the hands
of the reader is `Honoured`, that is, asked for by a registration that has returned.

Masks belong to things and registrations to paths.  The two go together as long as the kernel hands no
handle to two paths, and tells of a watch nothing that its mask does not have.  That is what is assumed
of the run (`Dealt`).
-/

namespace FileWatch

/-- What the kernel may tell of a watch without having been asked. -/
def Mask.addenda : Mask := isDirectory ||| unmount ||| ignored ||| queueOverflow

namespace Interplay

variable {s t : Interplay} {m : Move} {i : Nat} {p q : Path} {o : WatchOptions} {wanted bits : Mask}
  {h : Handle} {w : Watch} {r : Record} {e : Event} {owner : Handle → Path}

/-- A handle is handed to one path only, and nothing is told of a watch that it was not asked for. -/
structure Dealt (owner : Handle → Path) (s : Interplay) (m : Move) : Prop where
  truthful : ∀ r, m = .queue r → ∀ v ∈ s.notifier.watches, v.handle = r.handle →
    (v.mask ||| Mask.addenda).Covers r.mask
  single : ∀ {t : Interplay} {i : Nat} {p o wanted h}, s.fire m = some t →
    t.calls[i]? = some (.add p o (.inside (.told wanted (.ok h)))) →
      (p.normalize == owner h) = true

/-- A registration of a path that has succeeded asked for one of the bits. -/
def Honoured (s : Interplay) (p : Path) (bits : Mask) : Prop :=
  ∃ (i : Nat) (q : Path) (o : WatchOptions), s.calls[i]? = some (.add q o (.returned (.ok ()))) ∧
    (q.normalize == p) = true ∧ o.flags.has bits = true

/-- A registration of a path that was granted a watch asked for one of the bits. -/
def Warranted (s : Interplay) (p : Path) (bits : Mask) : Prop :=
  s.Honoured p bits ∨ ∃ (i : Nat) (q : Path) (o : WatchOptions) (wanted : Mask) (h : Handle),
    s.calls[i]? = some (.add q o (.inside (.told wanted (.ok h)))) ∧
      (q.normalize == p) = true ∧ o.flags.has bits = true

/-! ## What was asked for stays asked for -/

theorem Honoured.of_fire (legible : s.Legible) (honoured : s.Honoured p bits)
    (hfire : s.fire m = some t) : t.Honoured p bits := by
  obtain ⟨i, q, o, hcall, hq, hbits⟩ := honoured
  exact ⟨i, q, o, call_stays_returned legible hfire hcall rfl, hq, hbits⟩

theorem Warranted.of_fire (legible : s.Legible) (warranted : s.Warranted p bits)
    (hfire : s.fire m = some t) : t.Warranted p bits := by
  rcases warranted with honoured | ⟨i, q, o, wanted, h, stage, hq, hbits⟩
  · exact .inl (honoured.of_fire legible hfire)
  rcases holds_or_stores legible stage hfire with hstays | ⟨-, rfl⟩
  · exact .inr ⟨i, q, o, wanted, h, hstays, hq, hbits⟩
  · have hi := (List.getElem?_eq_some_iff.mp stage).1
    exact .inl ⟨i, q, o, List.getElem?_set_self hi, hq, hbits⟩

theorem Warranted.congr (warranted : s.Warranted p bits) (hpq : (p == q) = true) :
    s.Warranted q bits := by
  rcases warranted with ⟨i, x, o, hcall, hx, hbits⟩ | ⟨i, x, o, wanted, h, hcall, hx, hbits⟩
  · exact .inl ⟨i, x, o, hcall, BEq.trans hx hpq, hbits⟩
  · exact .inr ⟨i, x, o, wanted, h, hcall, BEq.trans hx hpq, hbits⟩

/-- While nobody holds the table, whoever was granted a watch has returned. -/
theorem Warranted.honoured (warranted : s.Warranted p bits) (free : s.tableFree = true) :
    s.Honoured p bits := by
  rcases warranted with honoured | ⟨i, q, o, wanted, h, stage, -, -⟩
  · exact honoured
  · exact absurd free (not_tableFree stage rfl)

/-! ## What the reader hands over -/

/-- An event speaks of a record of a watch: of its path, and of what was asked for under it. -/
def Vouched (owner : Handle → Path) (s : Interplay) (r : Record) (e : Event) : Prop :=
  ∃ p, (p == owner r.handle) = true ∧ e = ⟨r.subject p, r.mask.ops⟩ ∧
    ∀ bits, (r.mask &&& Mask.happenings).has bits = true → s.Honoured p bits

theorem Vouched.of_fire (legible : s.Legible) (vouched : Vouched owner s r e)
    (hfire : s.fire m = some t) : Vouched owner t r e := by
  obtain ⟨p, hp, he, hbits⟩ := vouched
  exact ⟨p, hp, he, fun bits hhas => (hbits bits hhas).of_fire legible hfire⟩

/-- An event is made of a record while nobody holds the table. -/
theorem translated_of_fire (hfire : s.fire m = some t) (hand : t.reading = .translated r e) :
    s.reading = .translated r e ∨
      s.reading = .single r ∧ s.tableFree = true ∧ r.event? s.table = some e := by
  cases step_of_fire hfire with
  | reader step =>
    generalize hplace : s.reading = place at step
    cases step with
    | translate r' e' free means =>
      cases hand
      exact .inr ⟨rfl, free, means⟩
    | read => cases hplace.symm.trans hand
    | _ => cases hand
  | call stage step => exact .inl (step.reading ▸ hand)
  | giveUpReport | giveUpEvent | fault | leave => cases hand
  | _ => exact .inl hand

theorem handing_of_fire (hfire : s.fire m = some t) (hand : t.reading = .handing r e) :
    s.reading = .handing r e ∨ s.reading = .translated r e := by
  have turn := turn_of_fire hfire
  rw [hand] at turn
  generalize hplace : s.reading = place at turn
  cases turn with
  | stays => exact .inl rfl
  | keep => exact .inr rfl

/-! ## Everything on the way is warranted -/

/-- Every bit on its way to the receiver is warranted, and every handle is with its owner. -/
structure Warrants (owner : Handle → Path) (s : Interplay) : Prop where
  told : ∀ {i : Nat} {p o wanted h},
    s.calls[i]? = some (.add p o (.inside (.told wanted (.ok h)))) → (p.normalize == owner h) = true
  owned : ∀ {p w}, s.table.entry? p = some w → (p == owner w.handle) = true
  entries : ∀ {p w bits}, s.table.entry? p = some w → w.flags.has bits = true → s.Warranted p bits
  watches : ∀ v ∈ s.notifier.watches, ∀ bits, v.mask.has bits = true →
    s.Warranted (owner v.handle) bits
  pending : ∀ r ∈ s.pending, ∀ bits, (r.mask &&& Mask.happenings).has bits = true →
    s.Warranted (owner r.handle) bits
  hand : ∀ r e, s.reading = .translated r e ∨ s.reading = .handing r e → Vouched owner s r e

theorem warrants_start (settings : Settings) (tree : Tree) (limit : Nat) :
    Warrants owner (start settings tree limit) :=
  ⟨nofun, nofun, nofun, nofun, nofun, nofun⟩

/-- What a registration is about to store was asked for by it or before it. -/
theorem warranted_of_told (hs : Reachable s)
    (entries : ∀ {p w bits}, s.table.entry? p = some w → w.flags.has bits = true →
      s.Warranted p bits)
    (stage : s.calls[i]? = some (.add p o (.inside (.told wanted (.ok h)))))
    (hbits : wanted.has bits = true) : s.Warranted p.normalize bits := by
  have hself : o.flags.has bits = true → s.Warranted p.normalize bits :=
    fun hasked => .inr ⟨i, p, o, wanted, h, stage, BEq.rfl, hasked⟩
  have hdemand := hs.asks.told stage
  unfold WatchTable.demand at hdemand
  cases hentry : s.table.entry? p.normalize with
  | none =>
    rw [hentry] at hdemand
    subst hdemand
    exact hself hbits
  | some w =>
    rw [hentry] at hdemand
    subst hdemand
    rw [Mask.has_or, Bool.or_eq_true] at hbits
    exact hbits.elim (entries hentry) hself

namespace Warrants

theorem entries_of_fire (hs : Reachable s) (warrants : Warrants owner s) (hfire : s.fire m = some t)
    (entry : t.table.entry? p = some w) (hbits : w.flags.has bits = true) : t.Warranted p bits := by
  rcases stored_or_kept hs.ordered hfire entry with
    hbefore | ⟨i, q, o, wanted, h, -, stage, hq, rfl⟩
  · exact (warrants.entries hbefore hbits).of_fire hs.legible hfire
  · have hwarranted := warranted_of_told hs warrants.entries stage hbits
    exact (hwarranted.congr hq).of_fire hs.legible hfire

theorem owned_of_fire (hs : Reachable s) (warrants : Warrants owner s) (hfire : s.fire m = some t)
    (entry : t.table.entry? p = some w) : (p == owner w.handle) = true := by
  rcases stored_or_kept hs.ordered hfire entry with
    hbefore | ⟨i, q, o, wanted, h, -, stage, hq, rfl⟩
  · exact warrants.owned hbefore
  · exact BEq.trans (BEq.symm hq) (warrants.told stage)

theorem watches_of_fire (hs : Reachable s) (warrants : Warrants owner s) (dealt : Dealt owner s m)
    (hfire : s.fire m = some t) :
    ∀ v ∈ t.notifier.watches, ∀ bits, v.mask.has bits = true →
      t.Warranted (owner v.handle) bits := by
  have ht : Reachable t := hs.leads (.step .refl trivial hfire : Leads Anything s t)
  have hkept : ∀ u ∈ s.notifier.watches, ∀ bits, u.mask.has bits = true →
      t.Warranted (owner u.handle) bits :=
    fun u hu bits hbits => (warrants.watches u hu bits hbits).of_fire hs.legible hfire
  rcases watches_of_effect (effect_of_fire hs.legible hfire).1 with
    hfewer | ⟨i, q, o, wanted, known, inode, h, -, granted⟩
  · exact fun v hv => hkept v (hfewer hv)
  · have hasked : ∀ bits, (armed wanted known &&& Mask.happenings).has bits = true →
        t.Warranted (owner h) bits := by
      intro bits hbits
      have hwarranted := warranted_of_told ht
        (fun entry hb => warrants.entries_of_fire hs hfire entry hb) granted.after (has_of_armed hbits)
      exact hwarranted.congr (dealt.single hfire granted.after)
    rw [granted.notifier]
    intro v hv bits hbits
    rcases Notifier.mem_watches_grant hs.ordered.sound granted.granted hv with
      ⟨hold, -⟩ | ⟨hh, hmask | ⟨u, hu, huh, hmask⟩⟩
    · exact hkept v hold bits hbits
    · rw [hmask] at hbits
      rw [hh]
      exact hasked bits hbits
    · rw [hmask, Mask.has_or, Bool.or_eq_true] at hbits
      rw [hh]
      rcases hbits with hbits | hbits
      · exact huh ▸ hkept u hu bits hbits
      · exact hasked bits hbits

/-- What is queued of a watch has, of what happens, bits of its mask only. -/
theorem has_of_truthful {v : KernelWatch} (truthful : (v.mask ||| Mask.addenda).Covers r.mask)
    (hbits : (r.mask &&& Mask.happenings).has bits = true) : v.mask.has bits = true := by
  have hapart : Mask.addenda &&& Mask.happenings = 0 := by decide
  exact Mask.has_of_apart hapart ((truthful.and Mask.happenings).has hbits)

theorem pending_of_fire (hs : Reachable s) (warrants : Warrants owner s) (dealt : Dealt owner s m)
    (hfire : s.fire m = some t) :
    ∀ r ∈ t.pending, ∀ bits, (r.mask &&& Mask.happenings).has bits = true →
      t.Warranted (owner r.handle) bits := by
  intro r hr bits hbits
  have hsilent : ∀ mask : Mask, mask &&& Mask.happenings = 0 → r.mask ≠ mask := by
    rintro mask hzero rfl
    rw [hzero] at hbits
    obtain ⟨k, hk, -⟩ := Mask.has_iff.mp hbits
    simp at hk
  rcases pending_of_effect (effect_of_fire hs.legible hfire).1 with
    hsub | ⟨q, x, live, hx, hsource, -, -, hadd⟩
  · exact (warrants.pending r (hsub.subset hr) bits hbits).of_fire hs.legible hfire
  rw [hadd, List.mem_append, List.mem_singleton] at hr
  rcases hr with hr | rfl
  · exact (warrants.pending r hr bits hbits).of_fire hs.legible hfire
  rcases hx with rfl | rfl
  · rcases hsource with rfl | hlast
    · obtain ⟨v, hv, hh⟩ := Notifier.isLive_iff.mp live
      have hmask := has_of_truthful (dealt.truthful r rfl v hv hh) hbits
      rw [← hh]
      exact (warrants.watches v hv bits hmask).of_fire hs.legible hfire
    · exact absurd hlast (hsilent _ (by decide))
  · exact absurd rfl (hsilent _ (by decide))

theorem hand_of_fire (hs : Reachable s) (warrants : Warrants owner s) (hfire : s.fire m = some t)
    (r : Record) (e : Event) (hand : t.reading = .translated r e ∨ t.reading = .handing r e) :
    Vouched owner t r e := by
  rcases hand with hand | hand
  · rcases translated_of_fire hfire hand with hsame | ⟨hsingle, free, hevent⟩
    · exact (warrants.hand r e (.inl hsame)).of_fire hs.legible hfire
    · refine Vouched.of_fire hs.legible ?_ hfire
      have hpending : r ∈ s.pending := mem_pending hsingle rfl
      cases hres : s.table.resolve? r.handle with
      | none =>
        rw [Record.event?, hres] at hevent
        cases hevent
      | some p =>
        have howner : (p == owner r.handle) = true := by
          obtain ⟨w, hw, hh⟩ := WatchTable.handleOf?_eq_some_iff.mp
            (hs.ordered.paired.handleOf?_of_resolve? hres)
          exact hh ▸ warrants.owned hw
        rw [FileWatch.event?_eq hres] at hevent
        split at hevent
        · cases hevent
        · cases hevent
          refine ⟨p, howner, rfl, fun bits hbits => ?_⟩
          exact ((warrants.pending r hpending bits hbits).congr (BEq.symm howner)).honoured free
  · rcases handing_of_fire hfire hand with hsame | htranslated
    · exact (warrants.hand r e (.inr hsame)).of_fire hs.legible hfire
    · exact (warrants.hand r e (.inl htranslated)).of_fire hs.legible hfire

/-- **Whatever a move adds is warranted.** -/
theorem of_fire (hs : Reachable s) (warrants : Warrants owner s) (dealt : Dealt owner s m)
    (hfire : s.fire m = some t) : Warrants owner t where
  told := by
    intro i p o wanted h stage
    exact dealt.single hfire stage
  owned := fun entry => warrants.owned_of_fire hs hfire entry
  entries := fun entry hbits => warrants.entries_of_fire hs hfire entry hbits
  watches := warrants.watches_of_fire hs dealt hfire
  pending := warrants.pending_of_fire hs dealt hfire
  hand := warrants.hand_of_fire hs hfire

end Warrants

theorem warrants_of_leads {settings : Settings} {tree : Tree} {limit : Nat}
    (dealt : Leads (Dealt owner) (start settings tree limit) s) : Warrants owner s := by
  induction dealt with
  | refl => exact warrants_start settings tree limit
  | step before allowed fired ih => exact ih.of_fire ⟨_, _, _, before.anything⟩ allowed fired

/-! ## What is handed over -/

/-- No call hands anything over. -/
theorem CallStep.events {c c' : Call} {u : Interplay} (step : s.CallStep i m c c' u) :
    u.watcher.reader.events = s.watcher.reader.events := by
  cases step <;> rfl

/-- The reader hands over what it has in hand, and nothing else. -/
theorem ReaderStep.events {hand : Reading} (step : s.ReaderStep hand t) :
    t.watcher.reader.events = s.watcher.reader.events ∨
      ∃ r e, hand = .handing r e ∧
        t.watcher.reader.events = s.watcher.reader.events.send e := by
  cases step with
  | hand r e => exact .inr ⟨r, e, rfl, rfl⟩
  | _ => exact .inl rfl

/-- What is delivered in a move was in the hands of the reader. -/
theorem handing_of_delivered (hfire : s.fire m = some t)
    (delivered : t.watcher.reader.events.sent = s.watcher.reader.events.sent ++ [e]) :
    ∃ r, s.reading = .handing r e := by
  have hlonger : t.watcher.reader.events ≠ s.watcher.reader.events := by
    intro hsame
    rw [hsame] at delivered
    simp at delivered
  cases step_of_fire hfire with
  | call stage step => exact absurd step.events hlonger
  | reader step =>
    rcases step.events with hsame | ⟨r, e', hand, hsent⟩
    · exact absurd hsame hlonger
    · refine ⟨r, ?_⟩
      rw [hsent, Outlet.send] at delivered
      split at delivered
      · rw [List.append_cancel_left_eq, List.singleton_inj] at delivered
        rw [hand, delivered]
      · simp at delivered
  | takeEvents | abandonEvents =>
    simp [withWatcher, Watcher.withReader, Outlet.taken, Outlet.abandoned] at delivered
  | _ => exact absurd rfl hlonger

/-! ## The result -/

/-- What was asked for with a bit that is reported as an operation. -/
theorem asked_of_flags {x : Mask × Ops} (hx : x ∈ Mask.reported)
    (hbits : o.flags.has x.1 = true) :
    o.requested.contains x.2 = true ∨ x.2 = .create ∧ o.requested.contains .rename = true := by
  have hlines : ∀ x ∈ Mask.reported, Mask.dontFollow.has x.1 = false := by decide
  apply Mask.asked_of_reported hx
  unfold WatchOptions.flags at hbits
  rw [Mask.has_or, Bool.or_eq_true] at hbits
  rcases hbits with hrequest | hlink
  · exact hrequest
  · split at hlink
    · rw [hlines x hx] at hlink
      cases hlink
    · obtain ⟨k, hk, -⟩ := Mask.has_iff.mp hlink
      simp at hk

/-- An operation that is not portable is meant only where it is named. -/
theorem named_of_requested {x : String × Ops} (hx : x ∈ Ops.named)
    (special : Ops.portable.intersects x.2 = false) (h : o.requested.contains x.2 = true) :
    o.ops.contains x.2 = true := by
  have hlines : ∀ x ∈ Ops.named, Ops.portable.intersects x.2 = false →
      Ops.portable.contains x.2 = false := by decide
  unfold WatchOptions.requested at h
  split at h
  · rw [hlines x hx special] at h
    cases h
  · exact h

/-- **Nothing unrequested is delivered.**  What is handed over speaks of a record, and of the path that
owns its handle; and each of its operations was asked for by a registration of that path that has
succeeded, or is a creation where a rename was asked for.  What is not portable was asked for by
name. -/
theorem nothing_unrequested {settings : Settings} {tree : Tree} {limit : Nat}
    (dealt : Leads (Dealt owner) (start settings tree limit) s) (hfire : s.fire m = some t)
    (delivered : t.watcher.reader.events.sent = s.watcher.reader.events.sent ++ [e]) :
    ∃ r p, s.reading = .handing r e ∧ (p == owner r.handle) = true ∧ e.path = r.subject p ∧
      Ops.all.contains e.ops = true ∧
      ∀ x ∈ Ops.named, e.ops.contains x.2 = true →
        ∃ (i : Nat) (q : Path) (o : WatchOptions),
          s.calls[i]? = some (.add q o (.returned (.ok ()))) ∧ (q.normalize == p) = true ∧
          (o.requested.contains x.2 = true ∨ x.2 = .create ∧ o.requested.contains .rename = true) ∧
          (Ops.portable.intersects x.2 = false → o.ops.contains x.2 = true) := by
  obtain ⟨r, hand⟩ := handing_of_delivered hfire delivered
  obtain ⟨p, howner, rfl, hbits⟩ := (warrants_of_leads dealt).hand r e (.inr hand)
  refine ⟨r, p, hand, howner, rfl, Mask.all_contains_ops r.mask, ?_⟩
  intro x hx hcontains
  obtain ⟨line, hline, heq, hhas⟩ := Mask.reported_of_contains hx hcontains
  have hhappens : (r.mask &&& Mask.happenings).has line.1 = true := by
    have hlines : ∀ l ∈ Mask.reported, Mask.Covers Mask.happenings l.1 := by decide
    obtain ⟨k, hk, hbit⟩ := Mask.has_iff.mp hhas
    have hhappening := Mask.covers_iff.mp (hlines line hline) k hbit
    exact Mask.has_iff.mpr ⟨k, by simp [hk, hhappening], hbit⟩
  obtain ⟨i, q, o, hcall, hq, hflags⟩ := hbits line.1 hhappens
  have hasked := asked_of_flags hline hflags
  rw [heq] at hasked
  refine ⟨i, q, o, hcall, hq, hasked, fun special => ?_⟩
  rcases hasked with hrequested | ⟨hcreate, -⟩
  · exact named_of_requested hx special hrequested
  · rw [hcreate] at special
    cases special

def Call.isDealt (owner : Handle → Path) : Call → Bool
  | .add p _ (.inside (.told _ (.ok h))) => p.normalize == owner h
  | _ => true

/-- Whether a move is known to be dealt. -/
def isDealt (owner : Handle → Path) (s : Interplay) (m : Move) : Bool :=
  ((s.fire m).all fun t => t.calls.all fun c => c.isDealt owner) &&
    match m with
    | .queue r => s.notifier.watches.all fun v =>
      v.handle ≠ r.handle || decide ((v.mask ||| Mask.addenda).Covers r.mask)
    | _ => true

theorem dealt_of_isDealt (h : isDealt owner s m = true) : Dealt owner s m := by
  unfold isDealt at h
  rw [Bool.and_eq_true] at h
  obtain ⟨hcalls, hqueue⟩ := h
  constructor
  · rintro r rfl v hv hh
    have hv' := List.all_eq_true.mp hqueue v hv
    rw [Bool.or_eq_true, decide_eq_true_eq, decide_eq_true_eq] at hv'
    rcases hv' with hne | hcovers
    · exact absurd hh hne
    · exact hcovers
  · intro t i p o wanted h hfire stage
    rw [hfire, Option.all_some] at hcalls
    exact List.all_eq_true.mp hcalls _ (List.mem_of_getElem? stage)

/-- A directory with a file in it. -/
def furnished : Tree := (Tree.fresh.add Tree.here [0x61] (.file [])).2

/-- Renames are asked for, a file arrives, and the reader has its event in hand. -/
def arrival : List Move :=
  .begin (.add ⟨[dot]⟩ (.new .rename) .arriving) :: List.replicate 5 (.call 0) ++
    .queue ⟨⟨1⟩, Mask.movedTo, 7, some [0x61]⟩ :: List.replicate 6 .reader

theorem nothing_unrequested_arrival : ∃ s t : Interplay,
    Leads (Dealt fun _ => ⟨[dot]⟩) (start .default furnished 16) s ∧ s.fire .reader = some t ∧
      t.watcher.reader.events.sent =
        s.watcher.reader.events.sent ++ [⟨⟨[dot, slash, 0x61]⟩, .create⟩] ∧
      ∃ (i : Nat) (q : Path) (o : WatchOptions),
        s.calls[i]? = some (.add q o (.returned (.ok ()))) ∧ (q.normalize == ⟨[dot]⟩) = true ∧
        (o.requested.contains .create = true ∨ o.requested.contains .rename = true) := by
  have hrun : ((start .default furnished 16).runWhile (isDealt fun _ => ⟨[dot]⟩) arrival).map
      (fun s => s.watcher.reader.events.sent) = some [] := by cbv
  obtain ⟨s, hs, hbefore⟩ := Option.map_eq_some_iff.mp hrun
  have hhanded : (((start .default furnished 16).runWhile (isDealt fun _ => ⟨[dot]⟩) arrival).bind
      fun s => s.fire .reader).map (fun t => t.watcher.reader.events.sent)
      = some [⟨⟨[dot, slash, 0x61]⟩, .create⟩] := by cbv
  rw [hs, Option.bind_some] at hhanded
  obtain ⟨t, ht, hafter⟩ := Option.map_eq_some_iff.mp hhanded
  have hdealt : Leads (Dealt fun _ => ⟨[dot]⟩) (start .default furnished 16) s :=
    leads_of_runWhile (fun _ _ => dealt_of_isDealt) hs
  have hdelivered : t.watcher.reader.events.sent =
      s.watcher.reader.events.sent ++ [⟨⟨[dot, slash, 0x61]⟩, .create⟩] := by
    rw [hbefore, hafter]
    rfl
  obtain ⟨r, p, -, hp, -, -, hasked⟩ := nothing_unrequested hdealt ht hdelivered
  obtain ⟨i, q, o, hcall, hq, hops, -⟩ := hasked ("CREATE", .create) (by decide) (by decide)
  exact ⟨s, t, hdealt, ht, hdelivered, i, q, o, hcall, BEq.trans hq hp, hops.imp_right And.right⟩

end Interplay

end FileWatch
