import Mathlib
import FileWatch.Proofs.Interplay.Asking
import FileWatch.Proofs.Path.Parts
import FileWatch.Proofs.Reader.Dispatch

/-!
# A registration comes before its records

The kernel can tell of a watch as soon as it has granted it, and a registration stores what it was
granted in a later step.  A record may be read in between.  It is not lost: the registration holds the
table from before it asks the kernel until it has stored the answer, and the reader looks up a handle
only while nobody holds the table.

So from the moment when the kernel grants a handle, the registration has the handle in hand, or the
handle stands for its path (`Brings`), until somebody ends that.  There are four ways to do so, and
`Keeps` says of a move that it is none of them.
-/

namespace FileWatch

namespace Interplay

variable {s t u : Interplay} {m : Move} {i j : Nat} {p q : Path} {o : WatchOptions} {wanted : Mask}
  {g h : Handle} {r : Record}

/-! ## What keeps a handle with a registration -/

/-- Every move but those that part a path from a handle that a registration of it was granted. -/
structure Keeps (i : Nat) (p : Path) (h : Handle) (s : Interplay) (m : Move) : Prop where
  /-- The reader does not take up the last record of the handle. -/
  unpurged : ∀ r, m = .reader → s.reading = .taken r → r.mask.has Mask.ignored = true → r.handle ≠ h
  /-- No removal runs out of time that waits for the handle to go. -/
  unforced : ∀ j q, m = .timeout j → s.calls[j]? = some (.remove q (.inside (.waiting h))) →
    s.table.owns q.normalize h = false
  /-- No other registration takes the handle over for another path, or abandons it for another one. -/
  undisplaced : ∀ j q o wanted g, m = .call j → j ≠ i →
    s.calls[j]? = some (.add q o (.inside (.told wanted (.ok g)))) →
    ¬ WatchTable.Displaces q.normalize g p.normalize h
  /-- The table is not wiped. -/
  unwiped : (m = .reader → s.reading ≠ .released) ∧
    ∀ j result, m = .call j → s.calls[j]? ≠ some (.close (.released result))

/-- A registration has in hand what it was granted, or has brought it into the table. -/
inductive Brings (i : Nat) (p : Path) (o : WatchOptions) (h : Handle) (s : Interplay) : Prop
  | held (wanted : Mask) (stage : s.calls[i]? = some (.add p o (.inside (.told wanted (.ok h)))))
  | stored (stage : s.calls[i]? = some (.add p o (.returned (.ok ()))))
      (resolves : s.table.resolve? h = some p.normalize)

/-- A registration that does not displace a pair leaves it as it is, to the letter. -/
theorem resolve?_insert_of_undisplaced {t : WatchTable} (paired : t.Paired)
    (resolves : t.resolve? h = some p.normalize)
    (undisplaced : ¬ WatchTable.Displaces q.normalize g p.normalize h) :
    (t.insert q.normalize ⟨g, wanted⟩).resolve? h = some p.normalize := by
  have howns : t.owns p.normalize h = true := WatchTable.owns_iff.mpr ⟨_, resolves, BEq.rfl⟩
  have hkept : (t.insert q.normalize ⟨g, wanted⟩).owns p.normalize h = true := by
    rw [← Bool.not_eq_false, paired.ended_iff_displaces _ howns]
    exact undisplaced
  obtain ⟨x, hx, hxp⟩ := WatchTable.owns_iff.mp hkept
  rw [hx, Option.some.injEq]
  rw [WatchTable.resolve?_insert] at hx
  split at hx
  · -- The path again, perhaps in another spelling; but a table has clean spellings only.
    cases hx
    exact q.isNormal_normalize.eq_of_beq p.isNormal_normalize hxp
  · split at hx
    · cases hx
    · rw [resolves, Option.some.injEq] at hx
      exact hx.symm

/-- **A registration keeps what it was granted.** -/
theorem Brings.of_fire (hs : Reachable s) (brings : s.Brings i p o h) (keeps : Keeps i p h s m)
    (hfire : s.fire m = some t) : t.Brings i p o h := by
  have paired := hs.ordered.paired
  cases brings with
  | held wanted stage =>
    rcases holds_or_stores hs.legible stage hfire with hstays | ⟨-, rfl⟩
    · exact .held wanted hstays
    · refine .stored (List.getElem?_set_self (List.getElem?_eq_some_iff.mp stage).1) ?_
      show (s.table.insert p.normalize ⟨h, wanted⟩).resolve? h = _
      rw [WatchTable.resolve?_insert, if_pos rfl]
  | stored stage resolves =>
    refine .stored (call_stays_returned hs.legible hfire stage rfl) ?_
    rcases altered_of_fire hfire with htable | alters
    · rw [htable]
      exact resolves
    cases alters with
    | purge r mover hand last table =>
      rw [table, paired.resolve?_removeHandle (keeps.unpurged r mover hand last)]
      exact resolves
    | force j q g mover stage owned table =>
      have hne : g ≠ h := by
        rintro rfl
        rw [keeps.unforced j q mover stage] at owned
        cases owned
      rw [table, paired.resolve?_removeHandle hne]
      exact resolves
    | store j q o' wanted g mover stage' table =>
      have hji : j ≠ i := by
        rintro rfl
        cases stage.symm.trans stage'
      rw [table]
      exact resolve?_insert_of_undisplaced paired resolves
        (keeps.undisplaced j q o' wanted g mover hji stage')
    | wipe by_whom table =>
      rcases by_whom with ⟨mover, released⟩ | ⟨j, result, mover, released⟩
      · exact absurd released (keeps.unwiped.1 mover)
      · exact absurd released (keeps.unwiped.2 j result mover)

theorem brings_of_leads (ht : Reachable t) (brings : t.Brings i p o h)
    (meanwhile : Leads (Keeps i p h) t u) : u.Brings i p o h := by
  induction meanwhile with
  | refl => exact brings
  | step before keeps fired ih => exact ih.of_fire (ht.leads before) keeps fired

/-! ## What the reader finds -/

/-- What becomes of a record of a watch whose path is known: it is translated, if it says something that
operations can express. -/
def rendered (r : Record) (watched : Path) : Reading :=
  if r.mask.ops.isEmpty then .polling else .translated r ⟨r.subject watched, r.mask.ops⟩

/-- **A record of a granted watch is recognized.**  The kernel has granted a handle to a registration.
From then on nobody has parted the handle from the path: its last record was not seen, no removal has
run out of time waiting for it, no other registration has taken it over or abandoned it, and the table
was not wiped.  Then the reader does not look the handle up while the registration has not stored it
yet; and when it does look it up, it finds the path of the registration, and translates the record. -/
theorem granted_watch_recognized (reachable : Reachable t)
    (granted : t.calls[i]? = some (.add p o (.inside (.told wanted (.ok h)))))
    (meanwhile : Leads (Keeps i p h) t u) :
    (u.tableFree = true → u.table.resolve? h = some p.normalize) ∧
    ∀ r, u.reading = .single r → r.handle = h →
      u.fire .reader =
        if u.tableFree then some (u.turnTo (rendered r p.normalize)) else none := by
  have hfound : u.tableFree = true → u.table.resolve? h = some p.normalize := by
    intro free
    cases brings_of_leads reachable (.held wanted granted) meanwhile with
    | held wanted' stage => exact absurd free (not_tableFree stage rfl)
    | stored _ resolves => exact resolves
  refine ⟨hfound, ?_⟩
  rintro r hand rfl
  simp only [fire, fireReader, hand]
  split
  · rename_i free
    rw [FileWatch.event?_eq (hfound free), rendered]
    cases r.mask.ops.isEmpty <;> rfl
  · rfl

/-- A test for moves that part nobody: a call takes its own steps, and the reader takes up no last record
and does not end. -/
def partsNobody (i : Nat) (s : Interplay) : Move → Bool
  | .queue _ => true
  | .call j => j == i && match s.calls[j]? with
    | some (.close _) => false
    | _ => true
  | .reader => match s.reading with
    | .taken r => !r.mask.has Mask.ignored
    | .released => false
    | _ => true
  | _ => false

theorem keeps_of_partsNobody (s : Interplay) (m : Move) (hm : s.partsNobody i m = true) :
    Keeps i p h s m := by
  unfold partsNobody at hm
  split at hm
  · exact ⟨nofun, nofun, nofun, nofun, nofun⟩
  · rename_i j
    obtain ⟨hj, hcall⟩ := Bool.and_eq_true_iff.mp hm
    refine ⟨nofun, nofun, ?_, nofun, ?_⟩
    · rintro k q o wanted g ⟨⟩ hne
      exact absurd (eq_of_beq hj) hne
    · rintro k result ⟨⟩ hreleased
      rw [hreleased] at hcall
      cases hcall
  · refine ⟨?_, nofun, nofun, ?_, nofun⟩
    · rintro r - hand hlast
      rw [hand] at hm
      simp [hlast] at hm
    · rintro - hand
      rw [hand] at hm
      cases hm
  · cases hm

/-- The directory is registered, up to where the kernel has granted a watch. -/
def grantedEarly : List Move :=
  .begin (.add ⟨[dot]⟩ (.new .create) .arriving) :: List.replicate 4 (.call 0)

/-- A file comes into being in the directory, and the reader reads of it. -/
def toldEarly : List Move := .queue ⟨⟨1⟩, Mask.create, 0, some [0x61]⟩ :: List.replicate 4 .reader

theorem granted_watch_recognized_early : ∃ t u v : Interplay,
    (start .default .fresh 16).run grantedEarly = some t ∧
    Leads (Keeps 0 ⟨[dot]⟩ ⟨1⟩) t u ∧ u.table.paths = [] ∧ u.fire .reader = none ∧
    u.fire (.call 0) = some v ∧
    v.fire .reader = some (v.turnTo (.translated ⟨⟨1⟩, Mask.create, 0, some [0x61]⟩
      ⟨⟨[dot, 0x2F, 0x61]⟩, .create⟩)) := by
  have hgranted : ((start .default .fresh 16).run grantedEarly).map (fun t => t.calls)
      = some [.add ⟨[dot]⟩ (.new .create) (.inside (.told 256 (.ok ⟨1⟩)))] := by cbv
  obtain ⟨t, ht, hcalls⟩ := Option.map_eq_some_iff.mp hgranted
  have htold : (((start .default .fresh 16).run grantedEarly).bind
      (runWhile (partsNobody 0) · toldEarly)).map
        (fun u => (u.reading, u.tableFree, u.table.paths, u.partsNobody 0 (.call 0)))
      = some (.single ⟨⟨1⟩, Mask.create, 0, some [0x61]⟩, false, [], true) := by cbv
  rw [ht, Option.bind_some] at htold
  obtain ⟨u, hu, hvalues⟩ := Option.map_eq_some_iff.mp htold
  simp only [Prod.mk.injEq] at hvalues
  obtain ⟨hand, hbusy, hpaths, hown⟩ := hvalues
  have hstored : ((((start .default .fresh 16).run grantedEarly).bind
      (runWhile (partsNobody 0) · toldEarly)).bind (fire · (.call 0))).map
        (fun v => (v.reading, v.tableFree))
      = some (.single ⟨⟨1⟩, Mask.create, 0, some [0x61]⟩, true) := by cbv
  rw [ht, Option.bind_some, hu, Option.bind_some] at hstored
  obtain ⟨v, hv, hvalues⟩ := Option.map_eq_some_iff.mp hstored
  obtain ⟨hand', hfree⟩ := Prod.mk.inj hvalues
  have hbefore : Leads (Keeps 0 ⟨[dot]⟩ ⟨1⟩) t u := leads_of_runWhile keeps_of_partsNobody hu
  have hafter : Leads (Keeps 0 ⟨[dot]⟩ ⟨1⟩) t v :=
    .step hbefore (keeps_of_partsNobody u (.call 0) hown) hv
  have hstage : t.calls[0]? = some (.add ⟨[dot]⟩ (.new .create) (.inside (.told 256 (.ok ⟨1⟩)))) := by
    rw [hcalls]
    rfl
  have hreachable : Reachable t := ⟨_, _, _, leads_of_run ht⟩
  obtain ⟨-, hwaits⟩ := granted_watch_recognized hreachable hstage hbefore
  obtain ⟨-, htranslates⟩ := granted_watch_recognized hreachable hstage hafter
  have hrendered : rendered ⟨⟨1⟩, Mask.create, 0, some [0x61]⟩ (Path.normalize ⟨[dot]⟩)
      = .translated ⟨⟨1⟩, Mask.create, 0, some [0x61]⟩ ⟨⟨[dot, 0x2F, 0x61]⟩, .create⟩ := by cbv
  refine ⟨t, u, v, ht, hbefore, hpaths, ?_, hv, ?_⟩
  · rw [hwaits _ hand rfl, hbusy]
    rfl
  · rw [htranslates _ hand' rfl, hfree, if_pos rfl, hrendered]

end Interplay

end FileWatch
